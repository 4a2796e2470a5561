import Cascade.Proofs.Run.Books

/-!
# What a crew has done

Every dependency that is handed out becomes a deed once its fate is known:
it was passed over, the hooks before its action failed, or its action came to
an end.  `Crew.Recorded` is the invariant that makes the deeds a record of
the whole run: each ID that was handed out has one deed, or a worker that is
still at it (`Recorded.balance`); the deeds are faithful to the actions; and
what the workers go on to do, the releases of the session and the
dependencies that count as executed follow from the deeds.

Failing hooks make a job fail whatever its deed says.  The parameter
`trouble` of the invariant is the condition under which hooks may fail.
-/

namespace Cascade.Run

open Handout (Session)
open Traversal (Event handedOut released)

variable {φ β : Type}

/-! ## Fates and outcomes -/

/-- The outcome to which a fate leads when no hooks fail. -/
def Fate.Leads (p : Plan φ β) (d : Dependency) : Fate φ β → Except Error Unit → Prop
  | .passed, outcome => outcome = .ok ()
  | .stopped _, _ => False
  | .acted _ (.ok ()), outcome => outcome = .ok ()
  | .acted _ (.error cause), outcome =>
    ∃ journal : Log.Journal, outcome = .error (.action p.verb.title d.name journal.content cause)

/-- A deed is faithful to the plan. -/
def Deed.Faithful (p : Plan φ β) (trouble : Prop) (deed : Deed φ β) : Prop :=
  match deed.fate with
  | .passed => p.acts deed.claim.payload = false
  | .stopped _ => p.acts deed.claim.payload = true ∧ trouble
  | .acted seen result => p.acts deed.claim.payload = true ∧
      ∃ journal, (p.performing deed.claim.payload).after seen = some (.done (result, journal))

/-- The deed of a claim is recorded, and leads to an outcome. -/
def Accounts (p : Plan φ β) (trouble : Prop) (deeds : List (Deed φ β)) (claim : Claim Dependency)
    (outcome : Except Error Unit) : Prop :=
  ∃ fate, ⟨claim, fate⟩ ∈ deeds ∧
    (fate.Leads p claim.payload outcome ∨ trouble ∧ outcome.isOk = false)

/-- The claim on which the action succeeded. -/
def Deed.success? (deed : Deed φ β) : Option (Claim Dependency) :=
  match deed.fate with
  | .acted _ (.ok ()) => some deed.claim
  | _ => none

/-- The dependency on which the action succeeded. -/
def Deed.done? (deed : Deed φ β) : Option Dependency := deed.success?.map (·.payload)

theorem Deed.success?_eq_some {deed : Deed φ β} {claim : Claim Dependency} :
    deed.success? = some claim ↔ ∃ seen, deed = ⟨claim, .acted seen (.ok ())⟩ := by
  obtain ⟨claim', fate⟩ := deed
  unfold success?
  split
  · rename_i seen heq
    simp only at heq
    subst heq
    simp
  · rename_i hnot
    simp only [reduceCtorEq, Deed.mk.injEq, false_iff, not_exists, not_and]
    rintro seen rfl rfl
    exact hnot seen rfl

theorem Accounts.mono {p : Plan φ β} {trouble : Prop} {deeds deeds' : List (Deed φ β)}
    {claim : Claim Dependency} {outcome : Except Error Unit}
    (h : Accounts p trouble deeds claim outcome) (hsub : deeds ⊆ deeds') :
    Accounts p trouble deeds' claim outcome := by
  obtain ⟨fate, hmem, hleads⟩ := h
  exact ⟨fate, hsub hmem, hleads⟩

/-- When hooks fail, any error may follow. -/
theorem Accounts.of_trouble {p : Plan φ β} {trouble : Prop} {deeds : List (Deed φ β)}
    {claim : Claim Dependency} {outcome outcome' : Except Error Unit}
    (h : Accounts p trouble deeds claim outcome) (htrouble : trouble)
    (herror : outcome'.isOk = false) : Accounts p trouble deeds claim outcome' := by
  obtain ⟨fate, hmem, _⟩ := h
  exact ⟨fate, hmem, Or.inr ⟨htrouble, herror⟩⟩

/-- The end of an action leads to what its hooks are told. -/
theorem leads_occasion (p : Plan φ β) (d : Dependency) (seen : List (World φ β))
    (answer : Except Error Unit × Log.Journal) :
    (∃ result journal, answer = (.ok result, journal) ∧ p.occasion d answer = .after ∧
      Fate.Leads p d (.acted seen answer.1) (.ok ())) ∨
    ∃ cause journal e, answer = (.error cause, journal) ∧ p.occasion d answer = .error e ∧
      Fate.Leads p d (.acted seen answer.1) (.error e) := by
  obtain ⟨result, journal⟩ := answer
  cases result with
  | ok result => exact Or.inl ⟨result, journal, rfl, rfl, rfl⟩
  | error cause => exact Or.inr ⟨cause, journal, _, rfl, rfl, journal, rfl⟩

/-! ## Posts and deeds -/

/-- What the deeds and the history of the session say about a worker that
stands at a post. -/
def Post.Fits (p : Plan φ β) (trouble : Prop) (deeds : List (Deed φ β)) (history : List Event)
    (claim : Claim Dependency) : Post φ β → Prop
  | .firing .before _ | .beginning => p.acts claim.payload = true
  | .acting seen left => p.acts claim.payload = true ∧
      (p.performing claim.payload).after seen = some left
  | .passing | .firing .after _ | .entering | .announcing =>
    Accounts p trouble deeds claim (.ok ())
  | .firing (.error e) _ | .aborting e | .warning e => Accounts p trouble deeds claim (.error e)
  | .releasing outcome => Accounts p trouble deeds claim outcome
  | .notifying outcome | .leaving outcome =>
    Accounts p trouble deeds claim outcome ∧ .released claim.id outcome.isOk ∈ history

/-- What the deeds and the history of the session say about a worker. -/
def Duty.Fits (p : Plan φ β) (trouble : Prop) (deeds : List (Deed φ β)) (history : List Event) :
    Duty φ β → Prop
  | .working claim post => post.Fits p trouble deeds history claim
  | .ended (some (claim, e)) =>
    Accounts p trouble deeds claim (.error e) ∧ .released claim.id false ∈ history
  | _ => True

/-- The ID of a claim whose deed is still to be recorded. -/
def Duty.undone? : Duty φ β → Option String
  | .working claim (.firing .before _) => some claim.id
  | .working claim .beginning => some claim.id
  | .working claim (.acting ..) => some claim.id
  | _ => none

/-- The dependency on which the action succeeded, if it does not count as
executed yet. -/
def Duty.entering? : Duty φ β → Option Dependency
  | .working claim (.firing .after _) => some claim.payload
  | .working claim .entering => some claim.payload
  | _ => none

theorem Post.Fits.mono {p : Plan φ β} {trouble : Prop} {deeds deeds' : List (Deed φ β)}
    {history history' : List Event} {claim : Claim Dependency} {post : Post φ β}
    (h : post.Fits p trouble deeds history claim) (hdeeds : deeds ⊆ deeds')
    (hhistory : history ⊆ history') : post.Fits p trouble deeds' history' claim := by
  cases post with
  | firing occasion hooks =>
    cases occasion with
    | before => exact h
    | after | error _ => exact Accounts.mono h hdeeds
  | beginning | acting _ _ => exact h
  | notifying _ | leaving _ => exact ⟨h.1.mono hdeeds, hhistory h.2⟩
  | _ => exact Accounts.mono h hdeeds

theorem Duty.Fits.mono {p : Plan φ β} {trouble : Prop} {deeds deeds' : List (Deed φ β)}
    {history history' : List Event} {duty : Duty φ β}
    (h : duty.Fits p trouble deeds history) (hdeeds : deeds ⊆ deeds')
    (hhistory : history ⊆ history') : duty.Fits p trouble deeds' history' := by
  cases duty with
  | working claim post => exact Post.Fits.mono h hdeeds hhistory
  | ended failure =>
    cases failure with
    | none => trivial
    | some failure => exact ⟨h.1.mono hdeeds, hhistory h.2⟩
  | asking stage => trivial

namespace Crew

/-- The claims on which the action succeeded, in order. -/
def succeeded (c : Crew φ β) : List (Claim Dependency) := c.account.deeds.filterMap Deed.success?

theorem mem_succeeded {c : Crew φ β} {claim : Claim Dependency} :
    claim ∈ c.succeeded ↔ ∃ seen, ⟨claim, .acted seen (.ok ())⟩ ∈ c.account.deeds := by
  unfold succeeded
  rw [List.mem_filterMap]
  constructor
  · rintro ⟨deed, hmem, hsuccess⟩
    obtain ⟨seen, rfl⟩ := Deed.success?_eq_some.mp hsuccess
    exact ⟨seen, hmem⟩
  · rintro ⟨seen, hmem⟩
    exact ⟨_, hmem, rfl⟩

/-- What succeeded is a part of what was done. -/
theorem succeeded_sublist (c : Crew φ β) :
    (c.succeeded.map (·.id)).Sublist (c.account.deeds.map (·.claim.id)) := by
  unfold succeeded
  induction c.account.deeds with
  | nil => exact .slnil
  | cons deed rest ih =>
    rw [List.filterMap_cons]
    cases h : deed.success? with
    | none => exact ih.cons _
    | some claim =>
      obtain ⟨seen, rfl⟩ := Deed.success?_eq_some.mp h
      exact ih.cons_cons _

/-- The deeds are a record of the run. -/
structure Recorded (p : Plan φ β) (trouble : Prop) (c : Crew φ β) : Prop where
  /-- What was handed out has one deed, or a worker that is still at it. -/
  balance : (handedOut c.session.history).Perm
    (c.account.deeds.map (·.claim.id) ++ c.duties.filterMap Duty.undone?)
  faithful : ∀ deed ∈ c.account.deeds, deed.Faithful p trouble
  fits : ∀ duty ∈ c.duties, duty.Fits p trouble c.account.deeds c.session.history
  released : ∀ {id succeeded}, .released id succeeded ∈ c.session.history →
    ∃ claim outcome, claim.id = id ∧ outcome.isOk = succeeded ∧
      Accounts p trouble c.account.deeds claim outcome
  /-- Unless hooks fail, what was done counts as executed sooner or later. -/
  executed : trouble ∨ (c.account.deeds.filterMap Deed.done?).Perm
    (c.account.executed ++ c.duties.filterMap Duty.entering?)

/-- No hooks have failed just now. -/
def Quiet (c : Crew φ β) : Prop :=
  ∀ claim occasion e, .working claim (.firing occasion (.done (.error e))) ∉ c.duties

/-- What a client that looks adds to the history of its session. -/
theorem history_inspect (s : Session Dependency) (i : Nat) :
    (s.next (.inspect i)).history = s.history ++
      match (s.handout.inspect i).1 with
      | .claim claim => [.handedOut claim.id]
      | _ => [] := by
  rcases s.handout.inspect_cases i with ⟨c, t, _, hi⟩ | ⟨_, hi⟩ | ⟨_, hi⟩ <;>
    simp [Session.next, hi]

namespace Recorded

variable {p : Plan φ β} {trouble : Prop} {c c' : Crew φ β} {i : Nat}

theorem start (p : Plan φ β) (trouble : Prop) (direction : Direction) (graph : Graph Dependency)
    (workers : Nat) (w : World φ β) :
    (Crew.start direction graph workers w).Recorded p trouble where
  balance := by simp [Crew.start, Session.start, handedOut, Duty.undone?]
  faithful := List.forall_mem_nil _
  fits duty h := by
    cases List.eq_of_mem_replicate h
    trivial
  released h := (List.not_mem_nil h).elim
  executed := Or.inr (by simp [Crew.start, Duty.entering?])

/-- The record after a worker has got a new duty, with what was added to it
on this occasion. -/
theorem assign (hr : c.Recorded p trouble) (new : List (Deed φ β)) (events : List Event)
    (entered : List Dependency) {duty duty' : Duty φ β}
    (hd : c.duties[i]? = some duty) (hduties : c'.duties = c.duties.set i duty')
    (hdeeds : c'.account.deeds = c.account.deeds ++ new)
    (hhistory : c'.session.history = c.session.history ++ events)
    (hexecuted : c'.account.executed = c.account.executed ++ entered)
    (hbalance : (handedOut events ++ duty.undone?.toList).Perm
      (new.map (·.claim.id) ++ duty'.undone?.toList))
    (hfaithful : ∀ deed ∈ new, deed.Faithful p trouble)
    (hfits : duty'.Fits p trouble c'.account.deeds c'.session.history)
    (hreleased : ∀ {id succeeded}, .released id succeeded ∈ events →
      ∃ claim outcome, claim.id = id ∧ outcome.isOk = succeeded ∧
        Accounts p trouble c'.account.deeds claim outcome)
    (hentering : trouble ∨ (new.filterMap Deed.done? ++ duty.entering?.toList).Perm
      (entered ++ duty'.entering?.toList)) : c'.Recorded p trouble where
  balance := by
    obtain ⟨rest, hold, hnew⟩ := perm_filterMap_set Duty.undone? hd duty'
    rw [hduties, hdeeds, hhistory, Traversal.handedOut_append, List.map_append]
    exact perm_balance hr.balance hold hnew hbalance
  faithful deed hdeed := by
    rw [hdeeds, List.mem_append] at hdeed
    exact hdeed.elim (hr.faithful deed) (hfaithful deed)
  fits duty₁ hduty₁ := by
    rw [hduties] at hduty₁
    rcases List.mem_or_eq_of_mem_set hduty₁ with hold | rfl
    · refine (hr.fits duty₁ hold).mono ?_ ?_
      · rw [hdeeds]
        exact List.subset_append_left ..
      · rw [hhistory]
        exact List.subset_append_left ..
    · exact hfits
  released {id succeeded} h := by
    rw [hhistory, List.mem_append] at h
    rcases h with hold | hnew
    · obtain ⟨claim, outcome, hid, hok, haccounts⟩ := hr.released hold
      refine ⟨claim, outcome, hid, hok, haccounts.mono ?_⟩
      rw [hdeeds]
      exact List.subset_append_left ..
    · exact hreleased hnew
  executed := by
    rcases hr.executed with htrouble | hperm
    · exact Or.inl htrouble
    rcases hentering with htrouble | hentering
    · exact Or.inl htrouble
    obtain ⟨rest, hold, hnew⟩ := perm_filterMap_set Duty.entering? hd duty'
    rw [hduties, hdeeds, hexecuted, List.filterMap_append]
    exact Or.inr (perm_balance hperm hold hnew hentering)

/-- A worker that has got a new duty without anything being added to the
record. -/
theorem assign_same (hr : c.Recorded p trouble) {duty duty' : Duty φ β}
    (hd : c.duties[i]? = some duty) (hduties : c'.duties = c.duties.set i duty')
    (hdeeds : c'.account.deeds = c.account.deeds)
    (hhistory : c'.session.history = c.session.history)
    (hexecuted : c'.account.executed = c.account.executed)
    (hundone : duty'.undone? = duty.undone?) (hentering : duty'.entering? = duty.entering?)
    (hfits : duty'.Fits p trouble c.account.deeds c.session.history) :
    c'.Recorded p trouble := by
  refine hr.assign [] [] [] hd hduties (by simpa using hdeeds)
    (by simpa using hhistory) (by simpa using hexecuted) (by simp [handedOut, hundone])
    (List.forall_mem_nil _) ?_ (fun h => (List.not_mem_nil h).elim) (Or.inr (by simp [hentering]))
  rw [hdeeds, hhistory]
  exact hfits

theorem fits_of_working (hr : c.Recorded p trouble) {claim : Claim Dependency} {post : Post φ β}
    (hd : c.duties[i]? = some (.working claim post)) :
    post.Fits p trouble c.account.deeds c.session.history claim :=
  hr.fits _ (List.mem_of_getElem? hd)

/-- A turn of a job keeps the record. -/
theorem labour (hr : c.Recorded p trouble) {claim : Claim Dependency} {post post' : Post φ β}
    {account : Account φ β} (hquiet : trouble ∨ c.Quiet)
    (hd : c.duties[i]? = some (.working claim post))
    (hl : Labour p claim c.account post account post') :
    ({ c.assign i (.working claim post') with account } : Crew φ β).Recorded p trouble := by
  have hfits := hr.fits_of_working hd
  cases hl with
  | pass => exact hr.assign_same hd rfl rfl rfl rfl rfl rfl hfits
  | hook occasion update rest =>
    cases occasion <;> exact hr.assign_same hd rfl rfl rfl rfl rfl rfl hfits
  | heard occasion =>
    cases occasion <;> exact hr.assign_same hd rfl rfl rfl rfl rfl rfl hfits
  | stop e =>
    have htrouble : trouble := hquiet.elim id fun h => absurd (List.mem_of_getElem? hd) (h _ _ _)
    refine hr.assign [⟨claim, .stopped e⟩] [] [] hd rfl rfl
      (by simp) (by simp [Account.record]) (by simp [handedOut, Duty.undone?]) ?_ ?_
      (fun h => (List.not_mem_nil h).elim) (Or.inl htrouble)
    · simp only [List.mem_singleton, forall_eq, Deed.Faithful]
      exact ⟨hfits, htrouble⟩
    · exact ⟨.stopped e, by simp [Account.record], Or.inr ⟨htrouble, rfl⟩⟩
  | @fail occasion e h =>
    have htrouble : trouble := hquiet.elim id fun h => absurd (List.mem_of_getElem? hd) (h _ _ _)
    have haccounts : Accounts p trouble c.account.deeds claim (.error e) := by
      cases occasion with
      | before => exact absurd rfl h
      | after => exact Accounts.of_trouble hfits htrouble rfl
      | error cause => exact Accounts.of_trouble hfits htrouble rfl
    refine hr.assign [] [] [] hd rfl (by simp) (by simp)
      (by simp) ?_ (List.forall_mem_nil _) haccounts (fun h => (List.not_mem_nil h).elim)
      (Or.inl htrouble)
    cases occasion with
    | before => exact absurd rfl h
    | after | error _ => simp [handedOut, Duty.undone?]
  | begin => exact hr.assign_same hd rfl rfl rfl rfl rfl rfl ⟨hfits, Routine.after_nil _⟩
  | act seen update rest =>
    exact hr.assign_same hd rfl rfl rfl rfl rfl rfl
      ⟨hfits.1, Routine.after_concat hfits.2 c.account.world⟩
  | acted seen answer =>
    refine hr.assign [⟨claim, .acted seen answer.1⟩] [] [] hd
      rfl rfl (by simp) (by simp [Account.record]) ?_ ?_ ?_
      (fun h => (List.not_mem_nil h).elim) ?_
    · rcases leads_occasion p claim.payload seen answer with
        ⟨_, _, _, hocc, _⟩ | ⟨_, _, _, _, hocc, _⟩ <;>
        simp [handedOut, Duty.undone?, hocc]
    · simp only [List.mem_singleton, forall_eq, Deed.Faithful]
      exact ⟨hfits.1, answer.2, hfits.2⟩
    · rcases leads_occasion p claim.payload seen answer with
        ⟨_, _, _, hocc, hleads⟩ | ⟨_, _, _, _, hocc, hleads⟩ <;>
        simp only [Duty.Fits, hocc] <;>
        exact ⟨_, by simp [Account.record], Or.inl hleads⟩
    · rcases leads_occasion p claim.payload seen answer with
        ⟨_, _, rfl, hocc, hleads⟩ | ⟨_, _, _, rfl, hocc, hleads⟩ <;>
        exact Or.inr (by simp [Deed.done?, Deed.success?, Duty.entering?, hocc])
  | enter =>
    refine hr.assign [] [] [claim.payload] hd rfl
      (by simp [Account.enter]) (by simp) rfl ?_ (List.forall_mem_nil _) ?_
      (fun h => (List.not_mem_nil h).elim) (Or.inr ?_) <;>
    cases p.silent <;> first | exact hfits | simp [handedOut, Duty.undone?, Duty.entering?]
  | announce => exact hr.assign_same hd rfl rfl rfl rfl rfl rfl hfits

/-- Every turn keeps the record. -/
theorem turn (hr : c.Recorded p trouble) (hquiet : trouble ∨ c.Quiet) (h : Turn p i c c') :
    c'.Recorded p trouble := by
  cases h with
  | register hd => exact hr.assign_same hd rfl rfl rfl rfl rfl rfl trivial
  | @pass claim hd ho hp =>
    have hnone : (Duty.working claim (p.passPost claim.payload) : Duty φ β).undone? = none ∧
        (Duty.working claim (p.passPost claim.payload) : Duty φ β).entering? = none := by
      unfold Plan.passPost
      split <;> exact ⟨rfl, rfl⟩
    have hfits : Accounts p trouble (c.account.deeds ++ [⟨claim, .passed⟩]) claim (.ok ()) :=
      ⟨.passed, by simp, Or.inl rfl⟩
    refine hr.assign [⟨claim, .passed⟩] [.handedOut claim.id] [] hd rfl rfl
      (by simp [history_inspect, ho]) (by simp [Account.record]) ?_ ?_ ?_ (by simp) ?_
    · rw [hnone.1]
      simp [handedOut, Event.handedOut?, Duty.undone?]
    · simpa [Deed.Faithful] using hp
    · unfold Plan.passPost
      split <;> exact hfits
    · rw [hnone.2]
      exact Or.inr (by simp [Deed.done?, Deed.success?, Duty.entering?])
  | @take claim hd ho hp =>
    refine hr.assign [] [.handedOut claim.id] [] hd rfl
      (by simp) (by simp [history_inspect, ho]) (by simp) ?_
      (List.forall_mem_nil _) hp (by simp) ?_
    · simp [handedOut, Event.handedOut?, Duty.undone?]
    · exact Or.inr (by simp [Duty.entering?])
  | park hd ho =>
    exact hr.assign_same hd rfl rfl (by simp [history_inspect, ho]) rfl rfl rfl trivial
  | exhaust hd ho =>
    exact hr.assign_same hd rfl rfl (by simp [history_inspect, ho]) rfl rfl rfl trivial
  | wake hd hw => exact hr.assign_same hd rfl rfl rfl rfl rfl rfl trivial
  | work hd hl => exact hr.labour hquiet hd hl
  | @abort claim e hd =>
    have hfits := hr.fits_of_working hd
    refine hr.assign [] [.aborted] [] hd rfl (by simp) rfl
      (by simp) (by simp [handedOut, Event.handedOut?, Duty.undone?]) (List.forall_mem_nil _) ?_
      (by simp) (Or.inr (by simp [Duty.entering?]))
    exact Accounts.mono hfits (List.Subset.refl _)
  | warn hd => exact hr.assign_same hd rfl rfl rfl rfl rfl rfl (hr.fits_of_working hd)
  | @release claim outcome hd =>
    have hfits := hr.fits_of_working hd
    refine hr.assign [] [.released claim.id outcome.isOk] [] hd
      rfl (by simp [Crew.release, Account.withLog, Account.within]) rfl
      (by simp [Crew.release, Account.withLog, Account.within])
      (by simp [handedOut, Event.handedOut?, Duty.undone?]) (List.forall_mem_nil _) ⟨hfits, ?_⟩ ?_
      (Or.inr (by simp [Duty.entering?]))
    · simp [Session.next]
    · intro id succeeded h
      rw [List.mem_singleton, Event.released.injEq] at h
      exact ⟨claim, outcome, h.1.symm, h.2.symm, hfits⟩
  | notify hd => exact hr.assign_same hd rfl rfl rfl rfl rfl rfl (hr.fits_of_working hd)
  | @leave claim outcome hd =>
    have hfits := hr.fits_of_working hd
    refine hr.assign_same hd (rfl : _ = c.duties.set i (.afterJob claim outcome)) rfl rfl rfl
      ?_ ?_ ?_
    · cases outcome <;> rfl
    · cases outcome <;> rfl
    · cases outcome with
      | ok _ => trivial
      | error e => exact hfits

/-- A worker that has ended has nothing more to record. -/
theorem eq_nil_of_ended {α : Type} {f : Duty φ β → Option α}
    (hf : ∀ failure, f (.ended failure) = none)
    (hended : ∀ duty ∈ c.duties, ∃ failure, duty = .ended failure) : c.duties.filterMap f = [] := by
  refine List.filterMap_eq_nil_iff.mpr fun duty hduty => ?_
  obtain ⟨failure, rfl⟩ := hended duty hduty
  exact hf failure

/-- At the end of a run, what was handed out has one deed. -/
theorem handedOut_perm (hr : c.Recorded p trouble)
    (hended : ∀ duty ∈ c.duties, ∃ failure, duty = .ended failure) :
    (handedOut c.session.history).Perm (c.account.deeds.map (·.claim.id)) := by
  have hbalance := hr.balance
  rwa [eq_nil_of_ended (fun _ => rfl) hended, List.append_nil] at hbalance

/-- At the end of a run in which no hooks fail, what was done counts as
executed. -/
theorem executed_perm (hr : c.Recorded p False)
    (hended : ∀ duty ∈ c.duties, ∃ failure, duty = .ended failure) :
    (c.succeeded.map (·.payload)).Perm c.account.executed := by
  rcases hr.executed with hfalse | hexecuted
  · exact hfalse.elim
  rw [eq_nil_of_ended (fun _ => rfl) hended, List.append_nil] at hexecuted
  unfold succeeded
  rwa [List.map_filterMap]

end Recorded

end Crew

end Cascade.Run
