import Cascade.Proofs.Run.Conduct
import Cascade.Proofs.Run.Handle
import Cascade.Proofs.Run.Termination
import Cascade.Proofs.Traversal.Exhaustion

/-!
# The outcome of a forward run

What a forward run performs, what it leaves and how it ends does not depend
on the order in which its workers move.  Let the action fail on the
dependencies of a set `F` and on no others, and let there be more workers
than members of `F`.  A worker dies of a failure, but at least one is left to
see that there is nothing more to do; so the traversal is spent, and what is
left of it is what is above a failure.

There are three groups.

* What the workers are at.  `Crew.Assigned` says that no two workers are at
  the same dependency and that every failure can be told from the worker that
  died of it.
* Runs without an abort.  `Crew.Unbroken` says that a worker ends for want of
  work only if the traversal is spent.
* The end of a run, which is the same however the workers have moved.
-/

namespace Cascade

open Relation

namespace Traversal.Ledger

variable {α : Type}

/-- Once a traversal is spent, it stays so. -/
theorem Spent.turn {l l' : Ledger α} (hs : l.Spent) (h : Turn l l') : l'.Spent := by
  cases h with
  | claim offered =>
    have hsome := (offered_iff offered).2.1
    rw [hs.nothing] at hsome
    cases hsome
  | release hheld succeeded =>
    rw [hs.held] at hheld
    cases hheld
  | abort => exact ⟨hs.held, hs.nothing⟩

end Traversal.Ledger

namespace Run

open Traversal (Ledger Event)

variable {φ β : Type}

/-- The ID of the dependency that a worker has given back as failed. -/
def Duty.failed? : Duty φ β → Option String
  | .working claim (.notifying (.error _)) => some claim.id
  | .working claim (.leaving (.error _)) => some claim.id
  | .ended (some (claim, _)) => some claim.id
  | _ => none

namespace Crew

variable {direction : Direction} {g : Graph Dependency} {p : Plan φ β} {c c' : Crew φ β}
  {i : Nat}

/-! ## What the workers are at -/

/-- No two workers are at the same dependency, and every failure can be told
from the worker that met it. -/
structure Assigned (c : Crew φ β) : Prop where
  handedOut : ∀ duty ∈ c.duties, ∀ claim, duty.claim? = some claim →
    .handedOut claim.id ∈ c.session.history
  distinct : (c.duties.filterMap fun duty => duty.claim?.map (·.id)).Nodup
  failed : ∀ id, .released id false ∈ c.session.history →
    ∃ duty ∈ c.duties, duty.failed? = some id

theorem Assigned.start (direction : Direction) (g : Graph Dependency) (workers : Nat)
    (w : World φ β) : (Crew.start direction g workers w).Assigned := by
  refine ⟨fun duty h claim hclaim => ?_, ?_, fun id h => ?_⟩
  · cases List.eq_of_mem_replicate h
    cases hclaim
  · simp [Crew.start, Duty.claim?]
  · cases h

/-- What has happened in a session stays on record. -/
theorem history_next (s : Handout.Session Dependency) (m : Handout.Move) :
    s.history ⊆ (s.next m).history := by
  cases m with
  | inspect client =>
    rw [history_inspect]
    exact List.subset_append_left ..
  | release id succeeded | abort => exact List.subset_append_left ..
  | _ => exact List.Subset.refl _

theorem Tied.history_turn (ht : c.Tied) (h : Turn p i c c') :
    c.session.history ⊆ c'.session.history := by
  rcases ht.session_turn h with heq | ⟨m, _, heq⟩
  · rw [heq]
    exact List.Subset.refl _
  · rw [heq]
    exact history_next ..

/-- A worker that has given a dependency back as failed goes on to its end,
and a failure comes from a worker. -/
theorem failed_turn (h : Turn p i c c') :
    ∃ duty duty', c.duties[i]? = some duty ∧ c'.duties = c.duties.set i duty' ∧
      (∀ id, duty.failed? = some id → duty'.failed? = some id) ∧
      ∀ id, .released id false ∈ c'.session.history →
        .released id false ∈ c.session.history ∨ duty'.failed? = some id := by
  cases h with
  | register hd | wake hd =>
    exact ⟨_, _, hd, rfl, fun _ h => (Option.some_ne_none _ h.symm).elim, fun _ h => Or.inl h⟩
  | pass hd ho | take hd ho | park hd ho | exhaust hd ho =>
    refine ⟨_, _, hd, rfl, fun _ h => (Option.some_ne_none _ h.symm).elim, fun id h => Or.inl ?_⟩
    simpa [history_inspect, ho] using h
  | work hd hl =>
    refine ⟨_, _, hd, rfl, fun id h => ?_, fun _ h => Or.inl h⟩
    cases hl <;> cases h
  | abort hd =>
    refine ⟨_, _, hd, rfl, fun _ h => (Option.some_ne_none _ h.symm).elim, fun id h => Or.inl ?_⟩
    simpa [Handout.Session.next] using h
  | warn hd =>
    exact ⟨_, _, hd, rfl, fun _ h => (Option.some_ne_none _ h.symm).elim, fun _ h => Or.inl h⟩
  | @release claim outcome hd =>
    refine ⟨_, _, hd, rfl, fun _ h => (Option.some_ne_none _ h.symm).elim, fun id h => ?_⟩
    simp only [session_assign, session_release, Handout.Session.next, List.mem_append,
      List.mem_singleton, Event.released.injEq] at h
    rcases h with hold | ⟨rfl, hfailed⟩
    · exact Or.inl hold
    · cases outcome with
      | ok _ => cases hfailed
      | error e => exact Or.inr rfl
  | @notify claim outcome hd =>
    refine ⟨_, _, hd, rfl, fun id h => ?_, fun _ h => Or.inl h⟩
    cases outcome with
    | ok _ => cases h
    | error e => exact h
  | @leave claim outcome hd =>
    refine ⟨_, _, hd, rfl, fun id h => ?_, fun _ h => Or.inl h⟩
    cases outcome with
    | ok _ => cases h
    | error e => exact h

theorem Assigned.turn (ha : c.Assigned) (hs : c.Sound direction g) (hg : g.Hierarchy)
    (hl : g.Laden) (h : Turn p i c c') : c'.Assigned := by
  have hhistory := hs.tied.history_turn h
  obtain ⟨duty, duty', hd, hduties, hclaim, _⟩ := claims_turn h
  have hmem := List.mem_of_getElem? hd
  refine ⟨fun d hdm claim hc => ?_, ?_, fun id hid => ?_⟩
  · rw [hduties] at hdm
    rcases List.mem_or_eq_of_mem_set hdm with hold | rfl
    · exact hhistory (ha.handedOut d hold claim hc)
    · rcases hclaim claim hc with hold | ⟨_, ho, hsession⟩
      · exact hhistory (ha.handedOut duty hmem claim hold)
      · rw [hsession, history_inspect, ho]
        simp
  · obtain ⟨rest, hold, hnew⟩ :=
      perm_filterMap_set (fun duty : Duty φ β => duty.claim?.map (·.id)) hd duty'
    have hnodup := hold.nodup_iff.mp ha.distinct
    rw [hduties, hnew.nodup_iff]
    cases hc : duty'.claim? with
    | none => exact (List.nodup_append.mp hnodup).2.1
    | some claim =>
      rcases hclaim claim hc with hsame | ⟨rfl, ho, _⟩
      · rwa [hsame] at hnodup
      · refine List.nodup_cons.mpr ⟨fun h => ?_, hnodup⟩
        have hmem' := hold.mem_iff.mpr (List.mem_append_right _ h)
        obtain ⟨d, hdm, hdc⟩ := List.mem_filterMap.mp hmem'
        obtain ⟨claim', hclaim', hid⟩ := Option.map_eq_some_iff.mp hdc
        have hout := ha.handedOut d hdm claim' hclaim'
        rw [hid] at hout
        exact hs.not_handedOut_of_offered hg hl ho hout
  · obtain ⟨duty₁, duty₁', hd₁, hduties₁, hkeeps, hfailed⟩ := failed_turn h
    have hi : i < c.duties.length := (List.getElem?_eq_some_iff.mp hd).1
    rw [hduties₁]
    have hself : duty₁' ∈ c.duties.set i duty₁' := List.mem_set hi _
    rcases hfailed id hid with hold | hnew
    · obtain ⟨d, hdm, hdf⟩ := ha.failed id hold
      obtain ⟨k, hk⟩ := List.getElem?_of_mem hdm
      by_cases hki : k = i
      · subst hki
        rw [hd₁] at hk
        cases hk
        exact ⟨duty₁', hself, hkeeps id hdf⟩
      · refine ⟨d, List.mem_of_getElem? (i := k) ?_, hdf⟩
        rw [List.getElem?_set_ne (Ne.symm hki)]
        exact hk
    · exact ⟨duty₁', hself, hnew⟩

/-! ## Runs without an abort -/

/-- Nobody aborts the traversal, and a worker ends for want of work only if
the traversal is spent. -/
structure Unbroken (c : Crew φ β) : Prop where
  aborting : ∀ claim e, .working claim (.aborting e) ∉ c.duties
  aborted : .aborted ∉ c.session.history
  spent : .ended none ∈ c.duties → c.session.ledger.Spent

theorem Unbroken.start (direction : Direction) (g : Graph Dependency) (workers : Nat)
    (w : World φ β) : (Crew.start direction g workers w).Unbroken := by
  refine ⟨fun claim e h => ?_, List.not_mem_nil, fun h => ?_⟩ <;>
    cases List.eq_of_mem_replicate h

/-- While no hooks fail, nobody begins to abort, and a worker ends only when
it is told that there is nothing more. -/
theorem duty_turn (hquiet : c.Quiet) (h : Turn p i c c') :
    ∃ duty duty', c.duties[i]? = some duty ∧ c'.duties = c.duties.set i duty' ∧
      (∀ claim e, duty' ≠ .working claim (.aborting e)) ∧
      (duty' = .ended none → (c.session.handout.inspect i).1 = .exhausted) := by
  cases h with
  | register hd | take hd | park hd | wake hd | abort hd | warn hd | release hd | notify hd =>
    refine ⟨_, _, hd, rfl, fun _ _ h => ?_, fun h => ?_⟩ <;> cases h
  | exhaust hd ho =>
    refine ⟨_, _, hd, rfl, fun _ _ h => ?_, fun _ => ho⟩
    cases h
  | pass hd ho hp =>
    refine ⟨_, _, hd, rfl, fun claim e h => ?_, fun h => ?_⟩
    case refine_2 => cases h
    unfold Plan.passPost at h
    split at h <;> cases h
  | work hd hl =>
    refine ⟨_, _, hd, rfl, fun claim e h => ?_, fun h => ?_⟩
    case refine_2 => cases h
    cases hl with
    | stop e | fail e => exact hquiet _ _ _ (List.mem_of_getElem? hd)
    | heard occasion => cases occasion <;> cases h
    | enter => split at h <;> cases h
    | _ => cases h
  | @leave claim outcome hd =>
    refine ⟨_, _, hd, rfl, fun _ _ h => ?_, fun h => ?_⟩ <;> cases outcome <;> cases h

theorem Unbroken.turn (hu : c.Unbroken) (hs : c.Sound direction g) (hg : g.Hierarchy)
    (hl : g.Laden) (hquiet : c.Quiet) (h : Turn p i c c') : c'.Unbroken := by
  obtain ⟨duty, duty', hd, hduties, haborting, hended⟩ := duty_turn hquiet h
  have hledger := hs.reachable.sound hg hl
  refine ⟨fun claim e hmem => ?_, ?_, fun hmem => ?_⟩
  · rw [hduties] at hmem
    rcases List.mem_or_eq_of_mem_set hmem with hold | hnew
    · exact hu.aborting claim e hold
    · exact haborting claim e hnew.symm
  · cases h with
    | abort hd => exact absurd (List.mem_of_getElem? hd) (hu.aborting _ _)
    | pass | take | park | exhaust => exact Handout.Session.not_aborted_inspect hu.aborted
    | release =>
      simp only [session_assign, session_release, Handout.Session.next, List.mem_append,
        List.mem_singleton, reduceCtorEq, or_false]
      exact hu.aborted
    | _ => exact hu.aborted
  · have hspent : c.session.ledger.Spent := by
      rw [hduties] at hmem
      rcases List.mem_or_eq_of_mem_set hmem with hold | hnew
      · exact hu.spent hold
      · have hexhausted := hended hnew.symm
        rw [Handout.inspect_fst] at hexhausted
        exact hledger.spent_of_exhausted hu.aborted hexhausted
    rcases hs.tied.session_turn h with heq | ⟨m, henabled, heq⟩
    · rw [heq]
      exact hspent
    · rw [heq]
      rcases Handout.Session.ledger_next henabled with hsame | hturn
      · rw [hsame]
        exact hspent
      · exact hspent.turn hturn

/-! ## The end of a run -/

/-- Hooks succeed, and the action fails on the dependencies of a set and on
no others. -/
def failingOn (I : World φ β → Prop) (F : Finset String) : Conduct φ β where
  world := I
  hooks answer := answer.isOk = true
  action claim result := result.isOk = true ↔ claim.id ∉ F

/-- What holds at any time of a run in which no hooks fail. -/
structure Steady (p : Plan φ β) (g : Graph Dependency) (k : Conduct φ β) (c : Crew φ β) :
    Prop extends c.Orderly p g k False, c.Assigned, c.Unbroken

theorem steady_follow {k : Conduct φ β} (hg : g.Hierarchy) (hl : g.Laden) (hk : p.Conducts g k)
    (hhooks : ∀ e, ¬ k.hooks (.error e)) (workers : Nat) {w : World φ β} (hw : k.world w)
    (schedule : List Nat) :
    ((Crew.start p.verb.direction g workers w).follow p schedule).Steady p g k := by
  refine follow_induction (P := fun c => c.Steady p g k) (fun i c c' hc h => ?_) schedule
    ⟨⟨.start .., .start .., .start .., .start _ _ _ hw⟩, .start .., .start ..⟩
  have hquiet := hc.conducted.quiet hhooks
  exact ⟨⟨hc.sound.turn h, hc.borne.turn hc.sound hg hl h, hc.recorded.turn (Or.inr hquiet) h,
    hc.conducted.turn hk hc.recorded hc.borne h⟩, hc.toAssigned.turn hc.sound hg hl h,
    hc.toUnbroken.turn hc.sound hg hl hquiet h⟩

namespace Steady

variable {I : World φ β → Prop} {F : Finset String}

/-- An outcome for which a deed accounts is that of the action, and says
whether the dependency is in the set. -/
theorem accounts (hc : c.Steady p g (failingOn I F)) {claim : Claim Dependency}
    {outcome : Except Error Unit} (h : Accounts p False c.account.deeds claim outcome) :
    g.Bears claim ∧
      ((outcome = .ok () ∧ (p.acts claim.payload = false ∨ claim ∈ c.succeeded ∧ claim.id ∉ F)) ∨
      ((∃ (journal : Log.Journal) (cause : Error), outcome =
          .error (.action p.verb.title claim.payload.name journal.content cause)) ∧
        p.acts claim.payload = true ∧ claim.id ∈ F)) := by
  obtain ⟨fate, hmem, hleads | ⟨hfalse, _⟩⟩ := h
  · have hborne := hc.borne.deeds _ hmem
    have hfaithful := hc.recorded.faithful _ hmem
    have hconducted := hc.conducted.deeds _ hmem
    refine ⟨hborne, ?_⟩
    cases fate with
    | passed => exact Or.inl ⟨hleads, Or.inl hfaithful⟩
    | stopped e => exact hleads.elim
    | acted seen result =>
      have hin : result.isOk = true ↔ claim.id ∉ F := hconducted.2
      cases result with
      | ok _ =>
        exact Or.inl ⟨hleads, Or.inr ⟨mem_succeeded.mpr ⟨seen, hmem⟩, hin.mp rfl⟩⟩
      | error cause =>
        obtain ⟨journal, hjournal⟩ := hleads
        refine Or.inr ⟨⟨journal, cause, hjournal⟩, hfaithful.1, ?_⟩
        by_contra hout
        cases hin.mpr hout
  · exact hfalse.elim

/-- What was released as failed is in the set. -/
theorem mem_of_failed (hc : c.Steady p g (failingOn I F)) {id : String}
    (h : .released id false ∈ c.session.history) : id ∈ F := by
  obtain ⟨claim, outcome, rfl, hfalse, haccounts⟩ := hc.recorded.released h
  rcases (hc.accounts haccounts).2 with ⟨rfl, _⟩ | ⟨_, _, hmem⟩
  · cases hfalse
  · exact hmem

/-- What was released as done is not in the set, if it is acted upon. -/
theorem not_mem_of_done (hc : c.Steady p g (failingOn I F)) (hg : g.Consistent)
    {claim : Claim Dependency} (hb : g.Bears claim) (hacts : p.acts claim.payload = true)
    (h : .released claim.id true ∈ c.session.history) : claim ∈ c.succeeded ∧ claim.id ∉ F := by
  obtain ⟨claim', outcome, hid, htrue, haccounts⟩ := hc.recorded.released h
  obtain ⟨hb', hcases⟩ := hc.accounts haccounts
  obtain rfl := hb'.unique hg hb hid
  rcases hcases with ⟨_, hpassed | hsucceeded⟩ | ⟨⟨_, _, rfl⟩, _⟩
  · rw [hpassed] at hacts
    cases hacts
  · exact hsucceeded
  · cases htrue

/-- Every worker that died met the failure of a member of the set. -/
theorem of_ended (hc : c.Steady p g (failingOn I F)) {claim : Claim Dependency} {e : Error}
    (h : .ended (some (claim, e)) ∈ c.duties) :
    g.Bears claim ∧ claim.id ∈ F ∧ .released claim.id false ∈ c.session.history ∧
      ∃ (journal : Log.Journal) (cause : Error),
        e = .action p.verb.title claim.payload.name journal.content cause := by
  obtain ⟨haccounts, hreleased⟩ := hc.recorded.fits _ h
  obtain ⟨hb, ⟨hok, _⟩ | ⟨⟨journal, cause, herror⟩, _, hmem⟩⟩ := hc.accounts haccounts
  · cases hok
  · cases herror
    exact ⟨hb, hmem, hreleased, journal, cause, rfl⟩

/-- If there are more workers than members of the set, one ends for want of
work: those that died did so of different members. -/
theorem exists_ended_none (hc : c.Steady p g (failingOn I F))
    (hended : ∀ duty ∈ c.duties, ∃ failure, duty = .ended failure)
    (hcard : F.card < c.duties.length) : .ended none ∈ c.duties := by
  by_contra hnone
  have hall : ∀ duty ∈ c.duties, ∃ claim e, duty = .ended (some (claim, e)) := by
    intro duty hduty
    obtain ⟨failure, rfl⟩ := hended duty hduty
    cases failure with
    | none => exact absurd hduty hnone
    | some failure => exact ⟨failure.1, failure.2, rfl⟩
  have hlength : (c.duties.filterMap fun duty => duty.claim?.map (·.id)).length =
      c.duties.length := by
    rw [List.filterMap_length_eq_length]
    intro duty hduty
    obtain ⟨claim, e, rfl⟩ := hall duty hduty
    rfl
  have hsub : (c.duties.filterMap fun duty => duty.claim?.map (·.id)).toFinset ⊆ F := by
    intro id hid
    rw [List.mem_toFinset, List.mem_filterMap] at hid
    obtain ⟨duty, hduty, hclaim⟩ := hid
    obtain ⟨claim, e, rfl⟩ := hall duty hduty
    cases hclaim
    exact (hc.of_ended hduty).2.1
  have hle := Finset.card_le_card hsub
  rw [List.toFinset_card_of_nodup hc.distinct, hlength] at hle
  omega

/-- At the end exactly what is above a member of the set is left, that one
included. -/
theorem mem_remaining_iff (hc : c.Steady p g (failingOn I F))
    (hforward : p.verb.direction = .forward) (hg : g.Hierarchy) (hl : g.Laden)
    (hF : ∀ f ∈ F, ∃ d, g.Bears ⟨f, d⟩ ∧ p.acts d = true) (hspent : c.session.ledger.Spent)
    (id : String) :
    id ∈ c.session.handout.traversal.graph.ids ↔
      id ∈ g.ids ∧ ∃ f ∈ F, ReflTransGen g.HasChild id f := by
  have hledger := hc.sound.reachable.sound hg hl
  rw [hforward] at hledger
  have hremaining (id : String) : id ∈ c.session.ledger.traversal.graph.ids ↔ id ∈ g.ids ∧
      ∃ d, .released d false ∈ c.session.ledger.history ∧ ReflTransGen g.HasChild id d :=
    hledger.mem_ids_iff_of_spent hg.consistent hspent
  constructor
  · intro h
    obtain ⟨hid, d, hfailed, hreach⟩ := (hremaining _).mp h
    exact ⟨hid, d, hc.mem_of_failed hfailed, hreach⟩
  · rintro ⟨hid, f, hf, hreach⟩
    by_contra hgone
    -- A member that is gone was completed, so its action succeeded.
    obtain ⟨d, hb, hacts⟩ := hF f hf
    have hfid := hb.mem_ids hg.consistent
    have hfgone : f ∉ c.session.ledger.traversal.graph.ids := fun h => by
      obtain ⟨_, d, hfailed, hbelow⟩ := (hremaining _).mp h
      exact hgone ((hremaining _).mpr ⟨hid, d, hfailed, hreach.trans hbelow⟩)
    have hdone := (hledger.completed_of_missing hg.consistent hfid hfgone).2
    exact (hc.not_mem_of_done hg.consistent hb hacts hdone).2 hf

/-- At the end the action has succeeded exactly on the dependencies to act
upon that are not above a member of the set. -/
theorem mem_succeeded_iff (hc : c.Steady p g (failingOn I F))
    (hforward : p.verb.direction = .forward) (hg : g.Hierarchy) (hl : g.Laden)
    (hended : ∀ duty ∈ c.duties, ∃ failure, duty = .ended failure)
    (hF : ∀ f ∈ F, ∃ d, g.Bears ⟨f, d⟩ ∧ p.acts d = true) (hspent : c.session.ledger.Spent)
    (claim : Claim Dependency) :
    claim ∈ c.succeeded ↔ g.Bears claim ∧ p.acts claim.payload = true ∧
      ∀ f ∈ F, ¬ ReflTransGen g.HasChild claim.id f := by
  have hledger := hc.sound.reachable.sound hg hl
  rw [hforward] at hledger
  constructor
  · intro h
    obtain ⟨seen, hmem⟩ := mem_succeeded.mp h
    have hb := hc.borne.deeds _ hmem
    have hfaithful := hc.recorded.faithful _ hmem
    have hin : (Except.ok () : Except Error Unit).isOk = true ↔ claim.id ∉ F :=
      (hc.conducted.deeds _ hmem).2
    refine ⟨hb, hfaithful.1, fun f hf hreach => ?_⟩
    rcases reflTransGen_iff_eq_or_transGen.mp hreach with rfl | hbelow
    · exact hin.mp rfl hf
    · -- What is above a member was never handed out.
      have hnot : .released f true ∉ c.session.ledger.history := fun hdone => by
        obtain ⟨d, hbf, hacts⟩ := hF f hf
        exact (hc.not_mem_of_done hg.consistent hbf hacts hdone).2 hf
      refine hledger.not_handedOut_above hg.consistent hnot hbelow ?_
      have hout := (hc.recorded.handedOut_perm hended).mem_iff.mpr
        (List.mem_map_of_mem (f := (·.claim.id)) hmem)
      exact Traversal.mem_handedOut.mp hout
  · rintro ⟨hb, hacts, hfree⟩
    have hid := hb.mem_ids hg.consistent
    have hgone : claim.id ∉ c.session.ledger.traversal.graph.ids := fun h => by
      obtain ⟨_, f, hf, hreach⟩ := (hc.mem_remaining_iff hforward hg hl hF hspent _).mp h
      exact hfree f hf hreach
    have hdone := (hledger.completed_of_missing hg.consistent hid hgone).2
    exact (hc.not_mem_of_done hg.consistent hb hacts hdone).1

/-- Each action has succeeded at most once. -/
theorem nodup_succeeded (hc : c.Steady p g (failingOn I F)) (hg : g.Hierarchy) (hl : g.Laden) :
    (c.succeeded.map (·.id)).Nodup :=
  (hc.nodup_deeds hg hl).sublist c.succeeded_sublist

/-- If the set has a member, a worker died of one. -/
theorem exists_ended_some (hc : c.Steady p g (failingOn I F))
    (hforward : p.verb.direction = .forward) (hg : g.Hierarchy) (hl : g.Laden)
    (hended : ∀ duty ∈ c.duties, ∃ failure, duty = .ended failure)
    (hF : ∀ f ∈ F, ∃ d, g.Bears ⟨f, d⟩ ∧ p.acts d = true) (hspent : c.session.ledger.Spent)
    (hne : F.Nonempty) : ∃ failure, .ended (some failure) ∈ c.duties := by
  obtain ⟨f, hf⟩ := hne
  obtain ⟨d, hb, _⟩ := hF f hf
  have hremains := (hc.mem_remaining_iff hforward hg hl hF hspent f).mpr
    ⟨hb.mem_ids hg.consistent, f, hf, .refl⟩
  have hledger := hc.sound.reachable.sound hg hl
  rw [hforward] at hledger
  obtain ⟨_, d, hfailed, _⟩ := (hledger.mem_ids_iff_of_spent hg.consistent hspent).mp hremains
  obtain ⟨duty, hduty, hid⟩ := hc.failed d hfailed
  obtain ⟨failure, rfl⟩ := hended duty hduty
  cases failure with
  | none => cases hid
  | some failure => exact ⟨failure, hduty⟩

/-- Below a member of the set of which a worker died there is no other. -/
theorem minimal_of_ended (hc : c.Steady p g (failingOn I F))
    (hforward : p.verb.direction = .forward) (hg : g.Hierarchy) (hl : g.Laden)
    (hF : ∀ f ∈ F, ∃ d, g.Bears ⟨f, d⟩ ∧ p.acts d = true) {claim : Claim Dependency} {e : Error}
    (h : .ended (some (claim, e)) ∈ c.duties) {f : String} (hf : f ∈ F) :
    ¬ TransGen g.HasChild claim.id f := by
  intro hbelow
  have hledger := hc.sound.reachable.sound hg hl
  rw [hforward] at hledger
  have hnot : .released f true ∉ c.session.ledger.history := fun hdone => by
    obtain ⟨d, hbf, hacts⟩ := hF f hf
    exact (hc.not_mem_of_done hg.consistent hbf hacts hdone).2 hf
  exact hledger.not_handedOut_above hg.consistent hnot hbelow (hc.handedOut _ h claim rfl)

end Steady

end Crew

end Run

/-! ## The result of handling -/

namespace Project

open Run

variable {φ β : Type}

/-- Let the action fail on the dependencies of a set, which are to be acted
upon, and on no others, and let there be more workers than members.  Then,
whatever the schedule, the action succeeds exactly on the dependencies to act
upon that are not above a member, once on each; what is left of the traversal
is what is above a member, that one included; and handling fails if and only
if there is a member, with an error about one that has no other below it.  If
there is none, the answer lists the executed dependencies that the root
project declares. -/
theorem handle_forward {rootId : String} {g : DependencyGraph} (hg : g.Grown rootId)
    (p : Project φ β) (schedule : List Nat) (verb : Verb) (hforward : verb.direction = .forward)
    (o : HandleOptions) (perform : Dependency → Task φ β Unit) (w : World φ β)
    (hdeps : p.config.hasDependencies = true) {log : List Log.Entry} {stored : Stored φ}
    (hresolve : p.resolve o.selection.update w.stored = (.ok g, log, stored))
    {I : World φ β → Prop} {F : Finset String}
    (hF : ∀ f ∈ F, ∃ d, g.Bears ⟨f, d⟩ ∧ (p.planFor verb o perform).acts d = true)
    (hworkers : F.card < p.workersFor o)
    (hconduct : (p.planFor verb o perform).Conducts g (Crew.failingOn I F))
    (hworld : I (begun verb o g log stored w)) :
    let plan := p.planFor verb o perform
    let w₀ := begun verb o g log stored w
    let done := (crew plan schedule (p.workersFor o) g w₀).succeeded
    let left := (work plan schedule (p.workersFor o) g w₀).shared.handout.traversal.graph.ids
    let answer := ((p.handle schedule verb o perform).run.run w).1
    (done.map (·.id)).Nodup ∧
    (∀ claim, claim ∈ done ↔ g.Bears claim ∧ plan.acts claim.payload = true ∧
      ∀ f ∈ F, ¬ ReflTransGen g.HasChild claim.id f) ∧
    (∀ id, id ∈ left ↔ id ∈ g.ids ∧ ∃ f ∈ F, ReflTransGen g.HasChild id f) ∧
    (F = ∅ → ∃ executed : List Dependency, executed.Perm (done.map (·.payload)) ∧
      answer = .ok ⟨g, executed.filter (·.isRoot)⟩) ∧
    (F ≠ ∅ → ∃ claim journal cause, g.Bears claim ∧ claim.id ∈ F ∧
      (∀ f ∈ F, ¬ TransGen g.HasChild claim.id f) ∧
      answer = .error (.action verb.title claim.payload.name journal cause)) := by
  intro plan w₀ done left answer
  have hh := hg.hierarchy
  have hl : g.Laden := hg.laden
  have hsteady : (crew plan schedule (p.workersFor o) g w₀).Steady plan g (Crew.failingOn I F) :=
    Crew.steady_follow hh hl hconduct (fun _ h => by cases h) _ hworld _
  have hended : ∀ duty ∈ (crew plan schedule (p.workersFor o) g w₀).duties,
      ∃ failure, duty = .ended failure := fun _ => ended_of_mem_crew plan schedule _ hh hl w₀
  have hlength : (crew plan schedule (p.workersFor o) g w₀).duties.length = p.workersFor o := by
    rw [crew, Crew.length_follow]
    simp [Crew.start]
  have hspent := hsteady.spent (hsteady.exists_ended_none hended (by rwa [hlength]))
  have hpool : work plan schedule (p.workersFor o) g w₀ =
      (crew plan schedule (p.workersFor o) g w₀).pool plan := work_eq ..
  have hleft := hsteady.mem_remaining_iff hforward hh hl hF hspent
  have hanswer : answer = _ := (handle_of_resolved schedule verb o perform w hdeps hresolve).1
  have hsucceeded := hsteady.mem_succeeded_iff hforward hh hl hended hF hspent
  refine ⟨hsteady.nodup_succeeded hh hl, hsucceeded, fun id => ?_, fun hnone => ?_,
    fun hsome => ?_⟩
  · show id ∈ (work plan schedule _ g w₀).shared.handout.traversal.graph.ids ↔ _
    rw [hpool]
    exact hleft id
  · -- A worker that died would have met the failure of a member.
    have hok : (work plan schedule (p.workersFor o) g w₀).result = .ok () := by
      rw [hpool, Pool.result_eq_ok_iff]
      intro i fault h
      obtain ⟨claim, e, hd, _⟩ := Crew.ended_error_iff.mp h
      have hmem := (hsteady.of_ended (List.mem_of_getElem? hd)).2.1
      rw [hnone] at hmem
      cases hmem
    refine ⟨_, (hsteady.recorded.executed_perm hended).symm, ?_⟩
    have hshared : (work plan schedule (p.workersFor o) g w₀).shared.executed =
        (crew plan schedule (p.workersFor o) g w₀).account.executed := by
      rw [hpool]
      rfl
    rw [hanswer, hok, hshared]
  · obtain ⟨failed, hfailed⟩ :=
      hsteady.exists_ended_some hforward hh hl hended hF hspent
        (Finset.nonempty_iff_ne_empty.mpr hsome)
    cases hresult : (work plan schedule (p.workersFor o) g w₀).result with
    | ok _ =>
      obtain ⟨i, hi⟩ := List.getElem?_of_mem hfailed
      rw [hpool, Pool.result_eq_ok_iff] at hresult
      exact absurd (Crew.ended_error_iff.mpr ⟨_, _, hi, rfl⟩) (hresult i _)
    | error e =>
      rw [hresult] at hanswer
      rw [hpool] at hresult
      obtain ⟨i, fault, hworker, rfl⟩ := Pool.exists_fault_of_result hresult
      obtain ⟨claim, e, hd, rfl⟩ := Crew.ended_error_iff.mp hworker
      have hmem := List.mem_of_getElem? hd
      obtain ⟨hb, hin, _, journal, cause, rfl⟩ := hsteady.of_ended hmem
      exact ⟨claim, journal.content, cause, hb, hin,
        fun f hf => hsteady.minimal_of_ended hforward hh hl hF hmem hf, hanswer⟩

/-! ## An application and its library -/

/-- A dependency that has a name and nothing else. -/
def named (name : String) (isRoot : Bool) : Dependency :=
  ⟨name, name, ⟨name⟩, .empty, ⟨name, false, []⟩, .standard, isRoot, []⟩

/-- An application above its library. -/
def tiers : DependencyGraph :=
  (Graph.new "root").insertAll [("root", "app", named "app" true), ("app", "lib", named "lib" false)]

theorem bears_app : tiers.Bears ⟨"app", named "app" true⟩ := ⟨1, _, by decide, rfl, rfl, rfl⟩

theorem bears_lib : tiers.Bears ⟨"lib", named "lib" false⟩ := ⟨2, _, by decide, rfl, rfl, rfl⟩

theorem grown_tiers : tiers.Grown "root" := .insertAll .new _

/-- A project that declares the application. -/
def tiersProject : Project Unit Unit where
  config := { Config.empty with dependencies := Std.TreeMap.ofList [("app", Declaration.mk "app" false [])] }
  resolve _ stored := (.ok tiers, [], stored)
  backend := ⟨fun _ => pure ∅, fun _ _ => pure (), fun _ _ => pure "", fun _ => pure (),
    fun _ _ _ => pure ()⟩
  hooks := .none
  sink _ := pure ()
  processors := 2

/-- An action that fails on the library. -/
def libFails (d : Dependency) : Task Unit Unit Unit :=
  if d.id = "lib" then throw (.other (.ofText "broken")) else pure ()

/-- Two workers and no filters. -/
def twoWorkers : HandleOptions := ⟨⟨[], [], false, false⟩, true, 2⟩

theorem conducts_libFails : (tiersProject.planFor .build twoWorkers libFails).Conducts tiers
    (Crew.failingOn (fun _ => True) {"lib"}) where
  hooks _ _ := rfl
  actions claim hb _ := by
    have hid := hb.mem_ids grown_tiers.hierarchy.consistent
    rw [show tiers.ids = ["app", "lib"] by decide] at hid
    have hone : claim.id = "app" ∨ claim.id = "lib" := by simpa using hid
    have hcons := grown_tiers.hierarchy.consistent
    rcases hone with hid | hid
    · obtain rfl := hb.unique hcons bears_app hid
      show (Except.ok () : Except Error Unit).isOk = true ↔ "app" ∉ ({"lib"} : Finset String)
      simp [Except.isOk, Except.toBool]
    · obtain rfl := hb.unique hcons bears_lib hid
      show (Except.error _ : Except Error Unit).isOk = true ↔ "lib" ∉ ({"lib"} : Finset String)
      simp [Except.isOk, Except.toBool]
  log _ _ _ := trivial
  started _ _ _ := trivial

/-- When the library cannot be built, the run fails with an error about the
library, and the application is left. -/
theorem handle_forward_tiers :
    let w : World Unit Unit := ⟨⟨(), .memory ∅⟩, [], ∅, [], ()⟩
    let answer := ((tiersProject.handle [0, 1, 0, 1] .build twoWorkers libFails).run.run w).1
    ∃ journal cause, answer = .error (.action "Build" "lib" journal cause) := by
  intro w answer
  obtain ⟨_, _, _, _, hfails⟩ := handle_forward (F := {"lib"}) grown_tiers tiersProject [0, 1, 0, 1]
    .build rfl twoWorkers libFails w (by decide) rfl
    (fun f hf => ⟨named "lib" false, by
      rw [Finset.mem_singleton] at hf
      subst hf
      exact ⟨bears_lib, by decide⟩⟩)
    (by decide) conducts_libFails trivial
  obtain ⟨claim, journal, cause, hb, hin, _, hanswer⟩ := hfails (by decide)
  rw [Finset.mem_singleton] at hin
  obtain rfl := hb.unique grown_tiers.hierarchy.consistent bears_lib hin
  exact ⟨journal, cause, hanswer⟩

end Project

end Cascade
