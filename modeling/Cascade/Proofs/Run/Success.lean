import Cascade.Proofs.Run.Forward
import Cascade.Proofs.Run.Order

/-!
# Runs that succeed

A whole run succeeds if no worker dies.  If its hooks never fail and there is a
worker at all, then the action has succeeded on every dependency that it was to be
performed on (`Steady.acted`).

Between batch events, a run succeeds if the events do that fire before and after
it.
-/

namespace Cascade

namespace Run.Crew

variable {φ β : Type} {p : Plan φ β} {g : Graph Dependency} {k : Conduct φ β} {c : Crew φ β}

/-! ## Crews -/

/-- A run succeeds if no worker has died. -/
theorem result_pool_eq_ok_iff (p : Plan φ β) (c : Crew φ β) :
    (c.pool p).result = .ok () ↔ ∀ failure, .ended (some failure) ∉ c.duties := by
  rw [Pool.result_eq_ok_iff]
  constructor
  · intro h failure hmem
    obtain ⟨i, hi⟩ := List.getElem?_of_mem hmem
    exact h i _ (ended_error_iff.mpr ⟨_, _, hi, rfl⟩)
  · intro h i fault hworker
    obtain ⟨claim, e, hd, _⟩ := ended_error_iff.mp hworker
    exact h _ (List.mem_of_getElem? hd)

/-- When all workers have ended for want of work, the action has succeeded on every
dependency to act upon. -/
theorem Steady.acted (hc : c.Steady p g k) (hforward : p.verb.direction = .forward)
    (hg : g.Hierarchy) (hl : g.Laden) (hended : ∀ duty ∈ c.duties, duty = .ended none)
    (hworkers : c.duties ≠ []) {claim : Claim Dependency} (hb : g.Bears claim)
    (hacts : p.acts claim.payload = true) :
    ∃ seen, ⟨claim, .acted seen (.ok ())⟩ ∈ c.account.deeds := by
  have hledger := hc.sound.reachable.sound hg hl
  rw [hforward] at hledger
  obtain ⟨duty, hduty⟩ := List.exists_mem_of_ne_nil _ hworkers
  have hspent := hc.spent (hended duty hduty ▸ hduty)
  have hid := hb.mem_ids hg.consistent
  -- nothing has failed, so nothing is left
  have hgone : claim.id ∉ c.session.ledger.traversal.graph.ids := fun h => by
    obtain ⟨_, d, hfailed, _⟩ := (hledger.mem_ids_iff_of_spent hg.consistent hspent).mp h
    obtain ⟨duty, hduty, hfailed⟩ := hc.failed d hfailed
    rw [hended duty hduty] at hfailed
    cases hfailed
  have hdone := (hledger.completed_of_missing hg.consistent hid hgone).2
  obtain ⟨claim', outcome, hid', htrue, fate, hmem, hleads | ⟨hfalse, _⟩⟩ :=
    hc.recorded.released hdone
  case inr => exact hfalse.elim
  have hb' : g.Bears claim' := hc.borne.deeds _ hmem
  obtain rfl := hb'.unique hg.consistent hb hid'
  have hfaithful := hc.recorded.faithful _ hmem
  cases fate with
  | passed => cases hacts.symm.trans hfaithful
  | stopped e => exact hleads.elim
  | acted seen result =>
    cases result with
    | ok _ => exact ⟨seen, hmem⟩
    | error cause =>
      obtain ⟨journal, rfl⟩ := hleads
      cases htrue

/-- A crew of nobody does nothing. -/
theorem follow_of_nobody (p : Plan φ β) {c : Crew φ β} (h : c.duties = []) (schedule : List Nat) :
    c.follow p schedule = c := by
  refine follow_induction (P := fun c' => c' = c) (fun i c₁ c₂ hc hturn => ?_) schedule rfl
  obtain ⟨duty, _, hd, _⟩ := claims_turn hturn
  rw [hc, h] at hd
  cases hd

end Run.Crew

namespace Run

variable {φ β : Type} {p : Plan φ β} {g : Graph Dependency}

theorem length_crew (p : Plan φ β) (schedule : List Nat) (workers : Nat) (g : Graph Dependency)
    (w : World φ β) : (crew p schedule workers g w).duties.length = workers := by
  rw [crew, Crew.length_follow]
  simp [Crew.start]

/-- Without workers nothing happens. -/
theorem crew_of_nobody (p : Plan φ β) (schedule : List Nat) (g : Graph Dependency)
    (w : World φ β) : crew p schedule 0 g w = Crew.start p.verb.direction g 0 w :=
  Crew.follow_of_nobody p rfl _

/-- When a run has succeeded and there was a worker, the action has succeeded on every
dependency to act upon. -/
theorem acted_crew {k : Conduct φ β} (hg : g.Hierarchy) (hl : g.Laden) (hk : p.Conducts g k)
    (hhooks : ∀ e, ¬ k.hooks (.error e)) (hforward : p.verb.direction = .forward)
    {schedule : List Nat} {workers : Nat} (hworkers : workers ≠ 0) {w : World φ β}
    (hw : k.world w) (hok : (Project.work p schedule workers g w).result = .ok ())
    {claim : Claim Dependency} (hb : g.Bears claim) (hacts : p.acts claim.payload = true) :
    ∃ seen, ⟨claim, .acted seen (.ok ())⟩ ∈ (crew p schedule workers g w).account.deeds := by
  have hsteady : (crew p schedule workers g w).Steady p g k :=
    Crew.steady_follow hg hl hk hhooks _ hw _
  rw [work_eq, Crew.result_pool_eq_ok_iff] at hok
  refine hsteady.acted hforward hg hl (fun duty hduty => ?_) (fun hnil => ?_) hb hacts
  · obtain ⟨failure, rfl⟩ := ended_of_mem_crew p schedule workers hg hl w hduty
    cases failure with
    | none => rfl
    | some failure => exact absurd hduty (hok failure)
  · have hlength := length_crew p schedule workers g w
    rw [hnil] at hlength
    exact hworkers hlength.symm

/-- A run succeeds if its hooks and its actions do, and what they keep is kept.  Nothing
is asked of them if there is nobody to call them. -/
theorem result_work (hg : g.Hierarchy) (hl : g.Laden) {I : World φ β → Prop} (schedule : List Nat)
    {workers : Nat} (hk : workers ≠ 0 → p.Conducts g (Crew.failingOn I ∅)) {w : World φ β}
    (hw : I w) : (Project.work p schedule workers g w).result = .ok () ∧
      I (Project.work p schedule workers g w).shared.world ∧
      ∀ deed ∈ (crew p schedule workers g w).account.deeds,
        g.Bears deed.claim ∧ deed.Faithful p False ∧ deed.Conducted (Crew.failingOn I ∅) := by
  rw [work_eq, Crew.result_pool_eq_ok_iff]
  by_cases hworkers : workers = 0
  · subst hworkers
    rw [crew_of_nobody]
    exact ⟨fun _ => List.not_mem_nil, hw, List.forall_mem_nil _⟩
  · have hsteady : (crew p schedule workers g w).Steady p g (Crew.failingOn I ∅) :=
      Crew.steady_follow hg hl (hk hworkers) (fun _ h => by cases h) _ hw _
    refine ⟨fun failure hmem => ?_, hsteady.conducted.world, fun deed hdeed =>
      ⟨hsteady.borne.deeds deed hdeed, hsteady.recorded.faithful deed hdeed,
        hsteady.conducted.deeds deed hdeed⟩⟩
    cases (hsteady.of_ended hmem).2.1

end Run

/-! ## Between batch events -/

namespace Project

variable {φ β : Type} {p : Project φ β}

/-- A part that is followed by one that succeeds with its answer. -/
theorem run_bind_of_ok {α γ : Type} {s : Session φ β α} {f : α → Session φ β γ} {w w' : World φ β}
    {a : α} (h : s.run.run w = (.ok a, w')) : (s >>= f).run.run w = (f a).run.run w' := by
  rw [run_bind, h]

/-- Between batch events that succeed, a run answers as it does on its own. -/
theorem withBatchHooks_of_quiet
    (hquiet : ∀ phase verb context w, ((p.fireBatch phase verb context).run.run w).1 = .ok ())
    (verb : Verb) (run : Session φ β Outcome) (w : World φ β) :
    let opened := ((p.fireBatch .before verb ∅).run.run w).2
    ((p.withBatchHooks verb run).run.run w).1 = (run.run.run opened).1 ∧
      ∃ phase context, ((p.withBatchHooks verb run).run.run w).2 =
        ((p.fireBatch phase verb context).run.run (run.run.run opened).2).2 := by
  intro opened
  have hfire (phase : Hook.Phase) (context : Dictionary) (w : World φ β) :
      (p.fireBatch phase verb context).run.run w =
        (.ok (), ((p.fireBatch phase verb context).run.run w).2) :=
    Prod.ext (hquiet phase verb context w) rfl
  unfold withBatchHooks
  rw [run_bind_of_ok (hfire .before ∅ w), run_bind_of_ok (attempt_run run _)]
  change (_ : Except Error Outcome × World φ β).1 = (run.run.run opened).1 ∧ _
  rcases run.run.run opened with ⟨result, w₂⟩
  cases result with
  | error e =>
    have hrun := run_bind_of_ok (f := fun _ => (throw e : Session φ β Outcome))
      (hfire .error (Std.TreeMap.ofList [("error", e.message)]) w₂)
    have hanswer := congrArg Prod.fst hrun
    have hworld := congrArg Prod.snd hrun
    exact ⟨hanswer, .error, _, hworld⟩
  | ok outcome =>
    have hrun := run_bind_of_ok (f := fun _ => (pure outcome : Session φ β Outcome))
      (hfire .after (Std.TreeMap.ofList
        [("dependencies", ",".intercalate (outcome.roots.map (·.name)))]) w₂)
    have hanswer := congrArg Prod.fst hrun
    have hworld := congrArg Prod.snd hrun
    exact ⟨hanswer, .after, _, hworld⟩

end Project

end Cascade
