import Cascade.Proofs.Run.Books
import Cascade.Run.Project
import Mathlib.Algebra.BigOperators.Group.Finset.Basic
import Mathlib.Algebra.Group.Action.Defs
import Mathlib.Algebra.Order.BigOperators.Group.Finset

/-!
# Runs come to an end

`Project.enough` is fuel for every run.  The measure that shows it counts the
dependencies that were not handed out yet, the workers that are at a job, and
how far the requests of the others still are from waiting.  A job may notify
everybody, which lets each of the others look once more; so a job weighs
`2 * n + 1`, for `n` workers.

A pool in which no worker can move is one whose workers have all ended: a
worker that is parked while nobody holds a claim or owes a notification
would have missed one (`Crew.ended_of_stuck`).
-/

namespace Cascade.Run

open Traversal (Ledger)

variable {φ β : Type}

/-! ## Jobs hand out nothing -/

/-- The IDs that were handed out are the same. -/
def SameVisited (s s' : Shared φ β) : Prop :=
  s'.handout.traversal.visited = s.handout.traversal.visited

/-- A step of a routine that hands out nothing. -/
abbrev HandsOutNothing {α : Type} (r : Step φ β α) : Prop :=
  r.Obeys (fun _ => True) SameVisited fun _ => True

theorem handsOutNothing_onWorld {α : Type} (r : Routine (World φ β) α) :
    HandsOutNothing (onWorld r) := by
  induction r with
  | done a => trivial
  | step update rest ih => exact fun s _ => ⟨rfl, ih s.world⟩

theorem handsOutNothing_notify : HandsOutNothing (notify : Step φ β Unit) :=
  fun _ _ => ⟨rfl, trivial⟩

theorem handsOutNothing_abort : HandsOutNothing (abort : Step φ β Unit) :=
  fun _ _ => ⟨rfl, handsOutNothing_notify⟩

theorem handsOutNothing_conclude (claim : Claim Dependency) (outcome : Except Error Unit) :
    HandsOutNothing (conclude claim outcome : Job (Shared φ β)) := by
  intro s _
  refine ⟨?_, fun _ _ => ⟨rfl, trivial⟩⟩
  show (s.handout.traversal.release claim.id outcome.isOk).2.visited = _
  rw [Traversal.release_eq]

theorem handsOutNothing_hear {claim : Claim Dependency} {next : Job (Shared φ β)}
    (hnext : HandsOutNothing next) (hooks : Routine (World φ β) (Except Error Unit)) :
    HandsOutNothing (hear claim next hooks) := by
  refine (handsOutNothing_onWorld hooks).bind fun answer _ => ?_
  cases answer with
  | ok _ => exact hnext
  | error e => exact handsOutNothing_abort.bind fun _ _ => handsOutNothing_conclude _ _

theorem handsOutNothing_entered (p : Plan φ β) (claim : Claim Dependency) :
    HandsOutNothing (p.entered claim) := by
  refine Routine.Obeys.bind (P := fun _ => True) (fun _ _ => ⟨rfl, trivial⟩) fun _ _ => ?_
  split
  · exact handsOutNothing_conclude _ _
  · exact (handsOutNothing_onWorld _).bind fun _ _ => handsOutNothing_conclude _ _

theorem handsOutNothing_judged (p : Plan φ β) (claim : Claim Dependency)
    (answer : Except Error Unit × Log.Journal) : HandsOutNothing (p.judged claim answer) := by
  unfold Plan.judged
  split
  · exact handsOutNothing_hear (handsOutNothing_conclude _ _) _
  · exact handsOutNothing_hear (handsOutNothing_entered _ _) _

theorem handsOutNothing_begun (p : Plan φ β) (claim : Claim Dependency) :
    HandsOutNothing (p.begun claim) :=
  (handsOutNothing_onWorld _).bind fun _ _ =>
    (handsOutNothing_onWorld _).bind fun _ _ => handsOutNothing_judged _ _ _

theorem handsOutNothing_job (p : Plan φ β) (claim : Claim Dependency) (post : Post φ β) :
    HandsOutNothing (post.job p claim) := by
  cases post with
  | passing | announcing =>
    exact (handsOutNothing_onWorld _).bind fun _ _ => handsOutNothing_conclude _ _
  | firing occasion hooks =>
    refine handsOutNothing_hear ?_ hooks
    cases occasion with
    | before => exact handsOutNothing_begun _ _
    | after => exact handsOutNothing_entered _ _
    | error e => exact handsOutNothing_conclude _ _
  | beginning => exact handsOutNothing_begun _ _
  | acting seen left =>
    exact (handsOutNothing_onWorld _).bind fun _ _ => handsOutNothing_judged _ _ _
  | entering => exact handsOutNothing_entered _ _
  | aborting e => exact handsOutNothing_abort.bind fun _ _ => handsOutNothing_conclude _ _
  | warning e => exact handsOutNothing_notify.bind fun _ _ => handsOutNothing_conclude _ _
  | releasing outcome => exact handsOutNothing_conclude _ _
  | notifying outcome => exact handsOutNothing_notify.bind fun _ _ => trivial
  | leaving outcome => trivial

/-- A whole job hands out nothing. -/
theorem visited_run_job (p : Plan φ β) (claim : Claim Dependency) (post : Post φ β)
    (s : Shared φ β) : SameVisited s ((post.job p claim).run s).2 :=
  ((handsOutNothing_job p claim post).run (fun _ _ _ _ => trivial) (fun _ _ => rfl)
    (fun _ _ _ h h' => h'.trans h) trivial).2.1

/-! ## The measure -/

/-- How many looks a registered worker has still to take until it waits,
unless it is notified again. -/
def looks (h : Handout Dependency) (i : Nat) : Nat :=
  if h.waiting? i = some true then 2 else 0

/-- What a worker of `n` weighs. -/
def charge (n : Nat) (h : Handout Dependency) (i : Nat) :
    Option (Worker Stage (Shared φ β)) → Nat
  | some (.asking .outside) => 2
  | some (.asking .registered) => looks h i + 1
  | some (.asking .parked) => looks h i
  | some (.working _) => 2 * n + 1
  | some (.ended _) => 0
  | none => 0

/-- The number of dependencies that were not handed out yet. -/
def unclaimed (size : Nat) (h : Handout Dependency) : Nat := size - h.traversal.visited.length

/-- What falls whenever a worker advances. -/
def measure (size : Nat) (pool : Pool Stage (Shared φ β)) : Nat :=
  unclaimed size pool.shared.handout * (2 * pool.workers.length + 1) +
    ∑ i ∈ Finset.range pool.workers.length,
      charge pool.workers.length pool.shared.handout i pool.workers[i]?

/-- A notification adds at most two to what another worker weighs. -/
theorem charge_le (n : Nat) (h h' : Handout Dependency) (i : Nat)
    (worker : Option (Worker Stage (Shared φ β))) :
    charge n h' i worker ≤ charge n h i worker + 2 := by
  have hlooks : looks h' i ≤ looks h i + 2 := by
    unfold looks
    split <;> omega
  unfold charge
  split <;> omega

theorem charge_congr {h h' : Handout Dependency} {i : Nat}
    (hw : h'.waiting? i = h.waiting? i) (n : Nat)
    (worker : Option (Worker Stage (Shared φ β))) :
    charge n h' i worker = charge n h i worker := by
  unfold charge looks
  rw [hw]

/-- A worker that has left its job may ask again. -/
theorem charge_afterJob_le (p : Plan φ β) (n : Nat) (h : Handout Dependency) (i : Nat)
    (outcome : Except Fault Unit) :
    charge n h i (some (Worker.afterJob p.provider.start outcome : Worker Stage (Shared φ β))) ≤
      2 := by
  cases outcome <;> simp [charge, Worker.afterJob, Plan.provider]

theorem charge_le_of_any (n : Nat) (h : Handout Dependency) (i : Nat)
    (worker : Option (Worker Stage (Shared φ β))) : charge n h i worker ≤ 2 * n + 3 := by
  have hlooks : looks h i ≤ 2 := by
    unfold looks
    split <;> omega
  unfold charge
  split <;> omega

/-- What one summand loses the sum loses, up to what the others gain. -/
theorem sum_range_shift {n i c : Nat} (f f' : Nat → Nat) (hi : i < n)
    (h : ∀ j, j ≠ i → f' j ≤ f j + c) :
    ∑ j ∈ Finset.range n, f' j + f i ≤ ∑ j ∈ Finset.range n, f j + f' i + c * (n - 1) := by
  have hmem : i ∈ Finset.range n := Finset.mem_range.mpr hi
  have hle : ∑ j ∈ (Finset.range n).erase i, f' j ≤
      ∑ j ∈ (Finset.range n).erase i, (f j + c) :=
    Finset.sum_le_sum fun j hj => h j (Finset.ne_of_mem_erase hj)
  have hcard : ((Finset.range n).erase i).card = n - 1 := by
    rw [Finset.card_erase_of_mem hmem, Finset.card_range]
  rw [Finset.sum_add_distrib, Finset.sum_const, hcard, smul_eq_mul, Nat.mul_comm] at hle
  have hf := Finset.add_sum_erase (Finset.range n) f hmem
  have hf' := Finset.add_sum_erase (Finset.range n) f' hmem
  omega

/-- The measure falls when what one worker loses outweighs what the others
gain. -/
theorem measure_set_lt {size c i : Nat} {pool : Pool Stage (Shared φ β)} {shared : Shared φ β}
    {worker worker' : Worker Stage (Shared φ β)} (hw : pool.workers[i]? = some worker)
    (hothers : ∀ j, j ≠ i → ∀ w : Option (Worker Stage (Shared φ β)),
      charge pool.workers.length shared.handout j w ≤
        charge pool.workers.length pool.shared.handout j w + c)
    (hself : unclaimed size shared.handout * (2 * pool.workers.length + 1) +
        charge pool.workers.length shared.handout i (some worker') +
        c * (pool.workers.length - 1) <
      unclaimed size pool.shared.handout * (2 * pool.workers.length + 1) +
        charge pool.workers.length pool.shared.handout i (some worker)) :
    measure size ⟨shared, pool.workers.set i worker'⟩ < measure size pool := by
  have hi : i < pool.workers.length := (List.getElem?_eq_some_iff.mp hw).1
  have hshift := sum_range_shift (c := c)
    (fun j => charge pool.workers.length pool.shared.handout j pool.workers[j]?)
    (fun j => charge pool.workers.length shared.handout j (pool.workers.set i worker')[j]?) hi
    (fun j hj => by
      simp only [List.getElem?_set_ne (Ne.symm hj)]
      exact hothers j hj _)
  simp only [hw, List.getElem?_set_self hi] at hshift
  unfold measure
  simp only [List.length_set]
  omega

/-- No more IDs are handed out than there are. -/
theorem length_visited_le {direction : Direction} {g : Graph Dependency} {l : Ledger Dependency}
    (hl : l.Sound direction g) (hg : g.Consistent) :
    l.traversal.visited.length ≤ g.size := by
  have hsub : Traversal.handedOut l.history ⊆ g.ids := by
    intro id hid
    obtain ⟨q, hq, hqid⟩ := hl.tracks.known (Traversal.mem_handedOut.mp hid)
    exact hg.mem_ids.mpr ⟨q, hq, hqid⟩
  rw [hl.balanced.visited, List.length_reverse, hg.size_eq]
  exact (List.subperm_of_subset hl.balanced.once hsub).length_le

namespace Crew

variable {direction : Direction} {g : Graph Dependency} {p : Plan φ β} {c c' : Crew φ β}
  {i : Nat}

/-- A worker that takes up a claim leaves one dependency less. -/
theorem Sound.unclaimed_inspect (hs : c.Sound direction g) (hg : g.Hierarchy) (hl : g.Laden)
    {claim : Claim Dependency} (hd : c.duties[i]? = some (.asking .registered))
    (ho : (c.session.handout.inspect i).1 = .claim claim) :
    unclaimed g.size (c.session.handout.inspect i).2 + 1 =
      unclaimed g.size c.session.handout := by
  have hlooking : c.session.Enabled (.inspect i) := (hs.tied.asks_registered hd).1
  have hnext := (Handout.Session.reachable_next hs.reachable hlooking).sound hg hl
  have hle := length_visited_le hnext hg.consistent
  have hvisited : (c.session.handout.inspect i).2.traversal.visited =
      claim.id :: c.session.handout.traversal.visited := by
    obtain ⟨t, hoffer, hinspect⟩ := Handout.inspect_of_claim ho
    obtain ⟨_, _, rfl⟩ := Ledger.offered_iff hoffer
    rw [hinspect]
    rfl
  have htraversal : (c.session.next (.inspect i)).ledger.traversal =
      (c.session.handout.inspect i).2.traversal := by
    rw [← handout_inspect]
    rfl
  rw [htraversal, hvisited, List.length_cons] at hle
  unfold unclaimed
  rw [hvisited, List.length_cons]
  omega

theorem unclaimed_register (size : Nat) (h : Handout Dependency) (i : Nat) :
    unclaimed size (h.register i) = unclaimed size h := rfl

/-- A worker that has just registered was not notified yet. -/
theorem looks_register (h : Handout Dependency) (i : Nat) : looks (h.register i) i = 0 := by
  simp [looks, Handout.waiting?_register]

/-- A worker that looks hears the offer of its session, and leaves the others
registered as they were. -/
theorem waiting?_inspect (h : Handout Dependency) {i j : Nat} (hj : j ≠ i) :
    (h.inspect i).2.waiting? j = h.waiting? j := by
  rcases h.inspect_cases i with ⟨c, t, _, hi⟩ | ⟨_, hi⟩ | ⟨_, hi⟩
  · rw [hi, Handout.waiting?_unregister, if_neg hj]
    rfl
  · rw [hi, Handout.waiting?_unregister, if_neg hj]
  · rw [hi]

/-- A worker that asks and moves lets the measure fall. -/
theorem Sound.measure_asking (hs : c.Sound direction g) (hg : g.Hierarchy) (hl : g.Laden)
    {stage : Stage} (hd : c.duties[i]? = some (.asking stage))
    {pool' : Pool Stage (Shared φ β)} (h : (c.pool p).step p.provider i = some pool') :
    measure g.size pool' < measure g.size (c.pool p) := by
  have hw : (c.pool p).workers[i]? = some (.asking stage) := by
    rw [workers_pool, hd]
    rfl
  unfold Pool.step at h
  simp only [hw, Option.map_eq_some_iff, Prod.exists] at h
  obtain ⟨shared, progress, hask, rfl⟩ := h
  cases stage with
  | outside =>
    cases hask
    refine measure_set_lt (c := 0) hw (fun j hj w => ?_) ?_
    · refine (charge_congr ?_ _ w).le
      rw [Handout.waiting?_register, if_neg hj]
    · simp [charge, Worker.ofProgress, looks_register, unclaimed_register]
  | parked =>
    obtain ⟨handout, hwake, heq⟩ := Option.map_eq_some_iff.mp hask
    cases heq
    by_cases hnotified : (c.pool p).shared.handout.waiting? i = some true
    · rw [Handout.wake_eq_some hnotified] at hwake
      cases hwake
      refine measure_set_lt (c := 0) hw (fun j hj w => ?_) ?_
      · refine (charge_congr ?_ _ w).le
        rw [Handout.waiting?_register, if_neg hj]
      · have hlooks : looks (c.pool p).shared.handout i = 2 := by simp [looks, hnotified]
        simp [charge, Worker.ofProgress, looks_register, unclaimed_register, hlooks]
    · rw [Handout.wake_eq_none hnotified] at hwake
      cases hwake
  | registered =>
    have hothers : ∀ j, j ≠ i → ∀ w : Option (Worker Stage (Shared φ β)),
        charge (c.pool p).workers.length (c.session.handout.inspect i).2 j w ≤
          charge (c.pool p).workers.length c.session.handout j w + 0 :=
      fun j hj w => (charge_congr (waiting?_inspect _ hj) _ w).le
    have hpool : (c.pool p).shared.handout = c.session.handout := rfl
    simp only [Plan.provider, hpool] at hask
    cases ho : (c.session.handout.inspect i).1 with
    | claim claim =>
      have hunclaimed := hs.unclaimed_inspect hg hl hd ho
      simp only [ho, Option.some.injEq, Prod.mk.injEq] at hask
      obtain ⟨rfl, rfl⟩ := hask
      refine measure_set_lt (c := 0) hw hothers ?_
      simp only [hpool, ← hunclaimed, charge, Worker.ofProgress, Nat.succ_mul]
      omega
    | pending =>
      have hsame := Handout.inspect_of_pending ho
      simp only [ho, Option.some.injEq, Prod.mk.injEq] at hask
      obtain ⟨rfl, rfl⟩ := hask
      refine measure_set_lt (c := 0) hw hothers ?_
      simp [hpool, hsame, charge, Worker.ofProgress]
    | exhausted =>
      have hsame := Handout.inspect_of_exhausted ho
      simp only [ho, Option.some.injEq, Prod.mk.injEq] at hask
      obtain ⟨rfl, rfl⟩ := hask
      refine measure_set_lt (c := 0) hw hothers ?_
      simp [hpool, hsame, charge, Worker.ofProgress, unclaimed, Handout.unregister]

/-- A worker that advances lets the measure fall. -/
theorem Sound.measure_advance (hs : c.Sound direction g) (hg : g.Hierarchy) (hl : g.Laden)
    {pool' : Pool Stage (Shared φ β)} (h : (c.pool p).advance p.provider i = some pool') :
    measure g.size pool' < measure g.size (c.pool p) := by
  unfold Pool.advance at h
  cases hd : c.duties[i]? with
  | none =>
    simp [workers_pool, hd, Pool.step] at h
  | some duty =>
    have hw : (c.pool p).workers[i]? = some (duty.worker p) := by
      rw [workers_pool, hd]
      rfl
    cases duty with
    | asking stage =>
      simp only [hw, Duty.worker] at h
      exact hs.measure_asking hg hl hd h
    | ended failure =>
      rw [hw] at h
      cases failure <;> simp [Duty.worker, Pool.step, hw] at h
    | working claim post =>
      simp only [hw, Duty.worker, Option.some.injEq] at h
      subst h
      have hi : i < (c.pool p).workers.length := (List.getElem?_eq_some_iff.mp hw).1
      have hvisited := visited_run_job p claim post (c.pool p).shared
      have hsame : unclaimed g.size ((post.job p claim).run (c.pool p).shared).2.handout =
          unclaimed g.size (c.pool p).shared.handout := by
        unfold unclaimed
        rw [show _ = _ from hvisited]
      refine measure_set_lt (c := 2) hw (fun j _ w => charge_le ..) ?_
      have hle := charge_afterJob_le p (c.pool p).workers.length
        ((post.job p claim).run (c.pool p).shared).2.handout i
        ((post.job p claim).run (c.pool p).shared).1
      have hjob : charge (c.pool p).workers.length (c.pool p).shared.handout i
          (some (Duty.worker p (.working claim post))) = 2 * (c.pool p).workers.length + 1 := rfl
      rw [hsame, hjob]
      omega

/-! ## The end of a run -/

theorem measure_lt_enough (g : Graph Dependency) (pool : Pool Stage (Shared φ β)) :
    measure g.size pool < Project.enough pool.workers.length g := by
  have hsum : ∑ i ∈ Finset.range pool.workers.length,
      charge pool.workers.length pool.shared.handout i pool.workers[i]? ≤
        pool.workers.length * (2 * pool.workers.length + 3) := by
    have hle := Finset.sum_le_card_nsmul (Finset.range pool.workers.length)
      (fun i => charge pool.workers.length pool.shared.handout i pool.workers[i]?) _
      fun i _ => charge_le_of_any ..
    rwa [Finset.card_range, smul_eq_mul] at hle
  have hunclaimed : unclaimed g.size pool.shared.handout * (2 * pool.workers.length + 1) ≤
      g.size * (2 * pool.workers.length + 1) :=
    Nat.mul_le_mul_right _ (Nat.sub_le ..)
  unfold measure Project.enough
  generalize pool.workers.length = n at *
  simp only [Nat.mul_add, Nat.add_mul] at *
  have hcomm : n * (2 * n) = 2 * (n * n) := Nat.mul_left_comm ..
  have hcomm' : g.size * (2 * n) = 2 * (g.size * n) := Nat.mul_left_comm ..
  simp only [Nat.mul_assoc] at *
  omega

/-- A worker at a job can move. -/
theorem step_ne_none_of_working {claim : Claim Dependency} {post : Post φ β}
    (hc : c.Settled) (hd : c.duties[i]? = some (.working claim post)) :
    c.step p i ≠ none := by
  have hsettled : post.Settled := hc _ (List.mem_of_getElem? hd)
  cases post with
  | firing occasion hooks =>
    cases hooks with
    | done answer => exact hsettled.elim
    | step update rest => simp [step, hd, labour]
  | acting seen left =>
    cases left with
    | done answer => exact hsettled.elim
    | step update rest => simp [step, hd, labour]
  | _ => simp [step, hd, labour]

/-- When no worker can move, all of them have ended. -/
theorem Sound.ended_of_stuck (hs : c.Sound direction g) (ha : c.session.Alert) (hc : c.Settled)
    (hstuck : ∀ i, c.step p i = none) {duty : Duty φ β} (hduty : duty ∈ c.duties) :
    ∃ failure, duty = .ended failure := by
  have hkind : ∀ duty ∈ c.duties, duty = .asking .parked ∨ ∃ failure, duty = .ended failure := by
    intro duty hduty
    obtain ⟨i, hi⟩ := List.getElem?_of_mem hduty
    have hnone := hstuck i
    cases duty with
    | ended failure => exact Or.inr ⟨failure, rfl⟩
    | working claim post => exact absurd hnone (step_ne_none_of_working hc hi)
    | asking stage =>
      cases stage with
      | parked => exact Or.inl rfl
      | outside => simp [step, hi] at hnone
      | registered =>
        simp only [step, hi] at hnone
        split at hnone <;> cases hnone
  have hheld : c.session.held = [] := by
    have hperm := hs.tied.held
    rw [List.filterMap_eq_nil_iff.mpr fun duty hduty => ?_] at hperm
    · exact hperm.eq_nil
    · rcases hkind duty hduty with rfl | ⟨failure, rfl⟩ <;> rfl
  have howed : c.session.owed = [] := by
    have hperm := hs.tied.owed
    rw [List.filterMap_eq_nil_iff.mpr fun duty hduty => ?_] at hperm
    · exact hperm.eq_nil
    · rcases hkind duty hduty with rfl | ⟨failure, rfl⟩ <;> rfl
  rcases hkind duty hduty with rfl | hended
  · obtain ⟨i, hi⟩ := List.getElem?_of_mem hduty
    have hasks := hs.tied.asks i
    rw [hi] at hasks
    have hnone := hstuck i
    have hwaits : c.session.handout.waiting? i = some false := by
      obtain ⟨notified, hnotified⟩ := Option.isSome_iff_exists.mp (hasks.2.mpr (Or.inr rfl))
      cases notified with
      | false => exact hnotified
      | true => simp [step, hi, hnotified] at hnone
    have hparked := ha.waiting hwaits (by rw [hasks.1]; simp)
    rw [ha.parked_eq_nil hheld howed] at hparked
    cases hparked
  · exact hended

end Crew

/-- The steps of a whole run: those of its schedule, and those that finish
it. -/
def wholeSchedule (p : Plan φ β) (schedule : List Nat) (workers : Nat) (g : Graph Dependency)
    (w : World φ β) : List Nat :=
  schedule ++ Pool.finishing p.provider (Project.enough workers g)
    ((Project.pool p workers g w).follow p.provider schedule)

/-- The crew at the end of a whole run. -/
def crew (p : Plan φ β) (schedule : List Nat) (workers : Nat) (g : Graph Dependency)
    (w : World φ β) : Crew φ β :=
  (Crew.start p.verb.direction g workers w).follow p (wholeSchedule p schedule workers g w)

theorem pool_start (p : Plan φ β) (workers : Nat) (g : Graph Dependency) (w : World φ β) :
    (Crew.start p.verb.direction g workers w).pool p = Project.pool p workers g w := by
  simp only [Crew.pool, Crew.start, List.map_replicate]
  rfl

/-- A pool on a graph of dependencies is that of a crew, whatever the schedule. -/
theorem pool_follow_start (p : Plan φ β) (schedule : List Nat) (workers : Nat)
    (g : Graph Dependency) (w : World φ β) :
    (Project.pool p workers g w).follow p.provider schedule =
      ((Crew.start p.verb.direction g workers w).follow p schedule).pool p := by
  rw [← pool_start]
  exact (Crew.pool_follow p (Crew.settled_start p.verb.direction g workers w) schedule).1

/-- The pool at the end of a whole run is the crew at its end. -/
theorem work_eq (p : Plan φ β) (schedule : List Nat) (workers : Nat) (g : Graph Dependency)
    (w : World φ β) :
    Project.work p schedule workers g w = (crew p schedule workers g w).pool p := by
  rw [crew, ← pool_follow_start, wholeSchedule, Pool.follow_append, Project.work,
    Pool.finish_eq_follow]

/-- When nobody can move, every worker has ended. -/
theorem ended_of_stuck_follow (p : Plan φ β) {g : Graph Dependency} (hg : g.Hierarchy)
    (hl : g.Laden) (workers : Nat) (w : World φ β) {schedule : List Nat}
    (hstuck : ((Project.pool p workers g w).follow p.provider schedule).Stuck p.provider)
    {duty : Duty φ β}
    (h : duty ∈ ((Crew.start p.verb.direction g workers w).follow p schedule).duties) :
    ∃ failure, duty = .ended failure := by
  have hsettled := (Crew.pool_follow p (Crew.settled_start p.verb.direction g workers w) schedule).2
  have hsound : ((Crew.start p.verb.direction g workers w).follow p schedule).Sound
      p.verb.direction g := (Crew.Sound.start p.verb.direction g workers w).follow schedule
  refine hsound.ended_of_stuck (p := p) (Crew.alert_follow hg hl p workers w _) hsettled
    (fun i => ?_) h
  have hnone := hstuck i
  rwa [pool_follow_start, Crew.pool_step p hsettled, Option.map_eq_none_iff] at hnone

/-- At the end of a whole run every worker has ended. -/
theorem ended_of_mem_crew (p : Plan φ β) (schedule : List Nat) (workers : Nat)
    {g : Graph Dependency} (hg : g.Hierarchy) (hl : g.Laden) (w : World φ β) {duty : Duty φ β}
    (h : duty ∈ (crew p schedule workers g w).duties) : ∃ failure, duty = .ended failure := by
  have hadvance : ∀ pool i pool',
      (∃ schedule, pool = (Project.pool p workers g w).follow p.provider schedule) →
      pool.advance p.provider i = some pool' →
      (∃ schedule, pool' = (Project.pool p workers g w).follow p.provider schedule) ∧
        measure g.size pool' < measure g.size pool := by
    rintro pool i pool' ⟨schedule, rfl⟩ hpool
    refine ⟨⟨schedule ++
      ((Project.pool p workers g w).follow p.provider schedule).advancing i, ?_⟩, ?_⟩
    · rw [Pool.follow_append]
      exact Pool.advance_eq_follow hpool
    · rw [pool_follow_start] at hpool ⊢
      exact ((Crew.Sound.start p.verb.direction g workers w).follow schedule).measure_advance
        hg hl hpool
  have hstuck : (Project.work p schedule workers g w).Stuck p.provider := by
    refine Pool.stuck_finish hadvance ⟨schedule, rfl⟩ ?_
    have hlt := Crew.measure_lt_enough g ((Project.pool p workers g w).follow p.provider schedule)
    have hlength : ((Project.pool p workers g w).follow p.provider schedule).workers.length =
        workers := by
      rw [pool_follow_start]
      simp [Crew.pool, Crew.length_follow, Crew.start]
    rwa [hlength] at hlt
  rw [work_eq, crew, ← pool_follow_start] at hstuck
  exact ended_of_stuck_follow p hg hl workers w hstuck h

/-- A pool is finished when its crew has ended. -/
theorem Crew.isFinished_pool (p : Plan φ β) {c : Crew φ β}
    (hended : ∀ duty ∈ c.duties, ∃ failure, duty = .ended failure) :
    (c.pool p).isFinished = true := by
  rw [Pool.isFinished, List.all_eq_true]
  intro worker h
  obtain ⟨duty, hduty, rfl⟩ := List.mem_map.mp h
  obtain ⟨failure, rfl⟩ := hended duty hduty
  cases failure <;> rfl

/-- When nobody can move, the pool is finished. -/
theorem Crew.isFinished_of_stuck (p : Plan φ β) {g : Graph Dependency} (hg : g.Hierarchy)
    (hl : g.Laden) (workers : Nat) (w : World φ β) (steps : List Nat)
    (h : ((Project.pool p workers g w).follow p.provider steps).Stuck p.provider) :
    ((Project.pool p workers g w).follow p.provider steps).isFinished = true := by
  rw [pool_follow_start]
  exact Crew.isFinished_pool p fun _ => ended_of_stuck_follow p hg hl workers w h

end Cascade.Run
