import Cascade.Proofs.Graph.Payload
import Cascade.Proofs.Run.Deeds

/-!
# What the parts of a run guarantee

Backend and hooks may be anything, and their steps come in any order.  A
`Conduct` is what is asked of each of them on its own: what they may rely upon
in the world and have to leave so, how hooks answer, and how the action on a
dependency ends.  If the plan of a run conducts itself so (`Plan.Conducts`),
then so does every run: `Crew.Conducted` is kept by every turn.

`Crew.Borne` says that a crew works on claims of its graph and on nothing else.
-/

namespace Cascade

/-- What a traversal hands out is on a node that is left. -/
theorem Traversal.bears_candidateClaim? {α : Type} {t : Traversal α} (hg : t.graph.Consistent)
    {claim : Claim α} (h : t.candidateClaim? = some claim) : t.graph.Bears claim := by
  obtain ⟨q, n, hn, heligible, hid, hpayload⟩ := candidateClaim?_some h
  exact ⟨q, n.bare, ((eligible_iff hg hn).mp heligible).1, Graph.bare?_of_node? hn, hid, hpayload⟩

namespace Run

open Traversal (Ledger)

variable {φ β : Type}

/-- The claim that a worker is at, or failed at. -/
def Duty.claim? : Duty φ β → Option (Claim Dependency)
  | .working claim _ => some claim
  | .ended failure => failure.map (·.1)
  | .asking _ => none

namespace Crew

/-- A worker goes on with its claim, unless it was offered a new one, and
what is recorded is about this claim. -/
theorem claims_turn {p : Plan φ β} {c c' : Crew φ β} {i : Nat} (h : Turn p i c c') :
    ∃ duty duty', c.duties[i]? = some duty ∧ c'.duties = c.duties.set i duty' ∧
      (∀ claim, duty'.claim? = some claim → duty.claim? = some claim ∨
        duty = .asking .registered ∧ (c.session.handout.inspect i).1 = .claim claim ∧
          c'.session = c.session.next (.inspect i)) ∧
      ∀ deed ∈ c'.account.deeds, deed ∈ c.account.deeds ∨ duty'.claim? = some deed.claim := by
  cases h with
  | register hd | park hd | exhaust hd | wake hd =>
    exact ⟨_, _, hd, rfl, fun _ h => (Option.some_ne_none _ h.symm).elim, fun _ h => Or.inl h⟩
  | pass hd ho hp =>
    refine ⟨_, _, hd, rfl, fun claim h => Or.inr ⟨rfl, ?_, rfl⟩, fun deed h => ?_⟩
    · cases h
      exact ho
    · simp only [Account.record, List.mem_append, List.mem_singleton] at h
      exact h.imp id fun (h : deed = _) => by rw [h]; rfl
  | take hd ho hp =>
    refine ⟨_, _, hd, rfl, fun claim h => Or.inr ⟨rfl, ?_, rfl⟩, fun _ h => Or.inl h⟩
    cases h
    exact ho
  | work hd hl =>
    refine ⟨_, _, hd, rfl, fun claim h => Or.inl h, fun deed h => ?_⟩
    cases hl with
    | stop e | acted seen answer =>
      simp only [Account.record, List.mem_append, List.mem_singleton] at h
      exact h.imp id fun (h : deed = _) => by rw [h]; rfl
    | _ => exact Or.inl h
  | abort hd | warn hd | release hd | notify hd =>
    exact ⟨_, _, hd, rfl, fun claim h => Or.inl h, fun _ h => Or.inl h⟩
  | @leave claim outcome hd =>
    refine ⟨_, _, hd, rfl, fun claim' h => Or.inl ?_, fun _ h => Or.inl h⟩
    cases outcome with
    | ok _ => cases h
    | error e => exact h

/-- A claim that is offered was not handed out before. -/
theorem Sound.not_handedOut_of_offered {direction : Direction} {g : Graph Dependency}
    {c : Crew φ β} {i : Nat} (hs : c.Sound direction g) (hg : g.Hierarchy) (hl : g.Laden)
    {claim : Claim Dependency} (ho : (c.session.handout.inspect i).1 = .claim claim) :
    .handedOut claim.id ∉ c.session.history := by
  have hledger := hs.reachable.sound hg hl
  rw [Handout.inspect_fst] at ho
  have hcandidate := (Ledger.offered_iff (Prod.ext ho rfl)).2.1
  obtain ⟨q, n, hn, heligible, hid, _⟩ := Traversal.candidateClaim?_some hcandidate
  have hnew := ((Traversal.eligible_iff hledger.tracks.hierarchy.consistent hn).mp heligible).2.1
  rw [hid] at hnew
  exact fun h => hnew (hledger.balanced.mem_visited.mpr h)

/-- The crew works on claims of the graph. -/
structure Borne (g : Graph Dependency) (c : Crew φ β) : Prop where
  duties : ∀ duty ∈ c.duties, ∀ claim, duty.claim? = some claim → g.Bears claim
  deeds : ∀ deed ∈ c.account.deeds, g.Bears deed.claim

theorem Borne.start (direction : Direction) (g : Graph Dependency) (workers : Nat)
    (w : World φ β) : (Crew.start direction g workers w).Borne g := by
  refine ⟨fun duty h claim hclaim => ?_, List.forall_mem_nil _⟩
  cases List.eq_of_mem_replicate h
  cases hclaim

/-- A turn brings no claim that is not on the graph. -/
theorem Borne.turn {p : Plan φ β} {direction : Direction} {g : Graph Dependency}
    {c c' : Crew φ β} {i : Nat} (hb : c.Borne g) (hs : c.Sound direction g) (hg : g.Hierarchy)
    (hl : g.Laden) (h : Turn p i c c') : c'.Borne g := by
  obtain ⟨duty, duty', hd, hduties, hclaim, hdeeds⟩ := claims_turn h
  have hnew : ∀ claim, duty'.claim? = some claim → g.Bears claim := by
    intro claim hc
    rcases hclaim claim hc with hold | ⟨_, hoffer, _⟩
    · exact hb.duties duty (List.mem_of_getElem? hd) claim hold
    · have hledger := hs.reachable.sound hg hl
      refine hledger.tracks.remnant.bears
        (Traversal.bears_candidateClaim? hledger.tracks.hierarchy.consistent ?_)
      rw [Handout.inspect_fst] at hoffer
      exact (Ledger.offered_iff (Prod.ext hoffer rfl)).2.1
  refine ⟨fun d hmem claim hc => ?_, fun deed hdeed => ?_⟩
  · rw [hduties] at hmem
    rcases List.mem_or_eq_of_mem_set hmem with hold | rfl
    · exact hb.duties d hold claim hc
    · exact hnew claim hc
  · exact (hdeeds deed hdeed).elim (hb.deeds deed) fun hc => hnew _ hc

end Crew

/-! ## Conduct -/

/-- What is asked of hooks and actions. -/
structure Conduct (φ β : Type) where
  /-- What they may rely upon in the world, and have to leave so. -/
  world : World φ β → Prop
  /-- How hooks answer. -/
  hooks : Except Error Unit → Prop
  /-- How the action on a claim ends. -/
  action : Claim Dependency → Except Error Unit → Prop

/-- The hooks and the actions of a plan do what is asked of them. -/
structure Plan.Conducts (p : Plan φ β) (g : Graph Dependency) (k : Conduct φ β) : Prop where
  hooks : ∀ phase d, (p.call phase d).Obeys k.world (fun _ w => k.world w) k.hooks
  actions : ∀ claim, g.Bears claim → p.acts claim.payload = true →
    (p.performing claim.payload).Obeys k.world (fun _ w => k.world w)
      fun answer => k.action claim answer.1
  log : ∀ w entries, k.world w → k.world (w.withLog entries)
  started : ∀ w started, k.world w → k.world { w with started }

/-- What is left of hooks or an action does what is asked of it. -/
def Post.Conducted (k : Conduct φ β) (claim : Claim Dependency) : Post φ β → Prop
  | .firing _ hooks => hooks.Obeys k.world (fun _ w => k.world w) k.hooks
  | .acting seen left => (∀ w ∈ seen, k.world w) ∧
      left.Obeys k.world (fun _ w => k.world w) fun answer => k.action claim answer.1
  | _ => True

/-- What is left for a worker does what is asked of it. -/
def Duty.Conducted (k : Conduct φ β) : Duty φ β → Prop
  | .working claim post => post.Conducted k claim
  | _ => True

/-- What became of a claim is what was asked for. -/
def Deed.Conducted (k : Conduct φ β) (deed : Deed φ β) : Prop :=
  match deed.fate with
  | .passed => True
  | .stopped e => k.hooks (.error e)
  | .acted seen result => (∀ w ∈ seen, k.world w) ∧ k.action deed.claim result

namespace Crew

/-- A run in which everybody did and does what is asked. -/
structure Conducted (k : Conduct φ β) (c : Crew φ β) : Prop where
  world : k.world c.account.world
  duties : ∀ duty ∈ c.duties, duty.Conducted k
  deeds : ∀ deed ∈ c.account.deeds, deed.Conducted k

namespace Conducted

variable {p : Plan φ β} {g : Graph Dependency} {k : Conduct φ β} {trouble : Prop}
  {c c' : Crew φ β} {i : Nat}

theorem start (direction : Direction) (g : Graph Dependency) (workers : Nat) {w : World φ β}
    (hw : k.world w) : (Crew.start direction g workers w).Conducted k := by
  refine ⟨hw, fun duty h => ?_, List.forall_mem_nil _⟩
  cases List.eq_of_mem_replicate h
  trivial

/-- A crew in which one worker has got a new duty and what it did is
recorded. -/
theorem assign (hc : c.Conducted k) (new : List (Deed φ β)) {duty' : Duty φ β}
    (hduties : c'.duties = c.duties.set i duty')
    (hdeeds : c'.account.deeds = c.account.deeds ++ new) (hworld : k.world c'.account.world)
    (hduty : duty'.Conducted k) (hnew : ∀ deed ∈ new, deed.Conducted k) : c'.Conducted k := by
  refine ⟨hworld, fun duty h => ?_, fun deed h => ?_⟩
  · rw [hduties] at h
    rcases List.mem_or_eq_of_mem_set h with hold | rfl
    · exact hc.duties duty hold
    · exact hduty
  · rw [hdeeds, List.mem_append] at h
    exact h.elim (hc.deeds deed) (hnew deed)

theorem assign_same (hc : c.Conducted k) {duty' : Duty φ β}
    (hduties : c'.duties = c.duties.set i duty') (hdeeds : c'.account.deeds = c.account.deeds)
    (hworld : k.world c'.account.world) (hduty : duty'.Conducted k) : c'.Conducted k :=
  hc.assign [] hduties (by simpa using hdeeds) hworld hduty (by simp)

/-- A turn of a job does what is asked of it. -/
theorem labour (hc : c.Conducted k) (hk : p.Conducts g k) (hr : c.Recorded p trouble)
    (hb : c.Borne g) {claim : Claim Dependency} {post post' : Post φ β} {account : Account φ β}
    (hd : c.duties[i]? = some (.working claim post))
    (hl : Labour p claim c.account post account post') :
    ({ c.assign i (.working claim post') with account } : Crew φ β).Conducted k := by
  have hmem := List.mem_of_getElem? hd
  have hpost : post.Conducted k claim := hc.duties _ hmem
  have hw := hc.world
  cases hl with
  | pass | announce =>
    exact hc.assign_same rfl rfl (hk.log _ _ hw) trivial
  | hook occasion update rest =>
    obtain ⟨hstep, hrest⟩ := hpost _ hw
    exact hc.assign_same rfl rfl hstep hrest
  | heard occasion =>
    refine hc.assign_same rfl rfl hw ?_
    cases occasion <;> trivial
  | stop e =>
    refine hc.assign [⟨claim, .stopped e⟩] rfl rfl hw trivial fun deed h => ?_
    rw [List.mem_singleton.mp h]
    exact hpost
  | fail e h => exact hc.assign_same rfl rfl hw trivial
  | begin =>
    have hacts : p.acts claim.payload = true := hr.fits_of_working hd
    have hobeys := hk.actions claim (hb.duties _ hmem claim rfl) hacts
    have hstarted : k.world { c.account.world with
        started := c.account.world.started ++ [claim.payload.id] } := hk.started _ _ hw
    exact hc.assign_same rfl rfl hstarted ⟨by simp, hobeys⟩
  | act seen update rest =>
    obtain ⟨hseen, hobeys⟩ := hpost
    obtain ⟨hstep, hrest⟩ := hobeys _ hw
    refine hc.assign_same rfl rfl hstep ⟨fun w h => ?_, hrest⟩
    rw [List.mem_append, List.mem_singleton] at h
    exact h.elim (hseen w) fun h => h ▸ hw
  | acted seen answer =>
    refine hc.assign [⟨claim, .acted seen answer.1⟩] rfl rfl hw (hk.hooks ..)
      fun deed h => ?_
    rw [List.mem_singleton.mp h]
    exact hpost
  | enter =>
    refine hc.assign_same rfl rfl hw ?_
    cases p.silent <;> trivial

/-- Every turn does what is asked of it. -/
theorem turn (hc : c.Conducted k) (hk : p.Conducts g k) (hr : c.Recorded p trouble)
    (hb : c.Borne g) (h : Turn p i c c') : c'.Conducted k := by
  have hw := hc.world
  cases h with
  | work hd hl => exact hc.labour hk hr hb hd hl
  | @pass claim hd ho hp =>
    refine hc.assign [⟨claim, .passed⟩] rfl rfl hw ?_ (by simp [Deed.Conducted])
    unfold Plan.passPost
    split <;> trivial
  | take hd ho hp => exact hc.assign_same rfl rfl hw (hk.hooks ..)
  | @release claim outcome hd =>
    have hlog : k.world (c.account.world.withLog (c.releaseEntries claim.id outcome.isOk)) :=
      hk.log _ _ hw
    exact hc.assign_same rfl rfl hlog trivial
  | @leave claim outcome hd =>
    refine hc.assign_same rfl rfl hw ?_
    cases outcome <;> trivial
  | _ => exact hc.assign_same rfl rfl hw trivial

/-- When hooks are asked to succeed, none has failed. -/
theorem quiet (hc : c.Conducted k) (hk : ∀ e, ¬ k.hooks (.error e)) : c.Quiet :=
  fun _ _ e h => hk e (hc.duties _ h)

end Conducted

/-! ## All of it -/

/-- What holds of a crew on a hierarchy at any time. -/
structure Orderly (p : Plan φ β) (g : Graph Dependency) (k : Conduct φ β) (trouble : Prop)
    (c : Crew φ β) : Prop where
  sound : c.Sound p.verb.direction g
  borne : c.Borne g
  recorded : c.Recorded p trouble
  conducted : c.Conducted k

/-- On a hierarchy, a turn of hooks and actions that do what is asked of them
keeps a crew orderly. -/
theorem Orderly.turn {p : Plan φ β} {g : Graph Dependency} {k : Conduct φ β} {trouble : Prop}
    {c c' : Crew φ β} {i : Nat} (hc : c.Orderly p g k trouble) (hg : g.Hierarchy) (hl : g.Laden)
    (hk : p.Conducts g k) (htrouble : trouble ∨ ∀ e, ¬ k.hooks (.error e)) (h : Turn p i c c') :
    c'.Orderly p g k trouble := by
  have hquiet : trouble ∨ c.Quiet := htrouble.imp id hc.conducted.quiet
  exact ⟨hc.sound.turn h, hc.borne.turn hc.sound hg hl h, hc.recorded.turn hquiet h,
    hc.conducted.turn hk hc.recorded hc.borne h⟩

/-- A dependency has one deed at most. -/
theorem Orderly.nodup_deeds {p : Plan φ β} {g : Graph Dependency} {k : Conduct φ β}
    {trouble : Prop} {c : Crew φ β} (hc : c.Orderly p g k trouble) (hg : g.Hierarchy)
    (hl : g.Laden) : (c.account.deeds.map (·.claim.id)).Nodup := by
  have honce := (hc.sound.reachable.sound hg hl).balanced.once
  exact (List.nodup_append.mp (hc.recorded.balance.nodup_iff.mp honce)).1

end Crew

end Run

end Cascade
