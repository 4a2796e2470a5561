import Cascade.Pool.Basic
import Cascade.Proofs.Pool.Routine
import Mathlib.Data.List.Perm.Basic

/-!
# Runs of a pool

Letting a worker advance and finishing a run are runs of atomic steps like
any other: `finish_eq_follow` names the schedule.  So what is kept by every
step holds in the end, and a statement about all schedules covers the steps
that finish a run.

`stuck_finish` says that a run that is given enough fuel stops only when no
worker can move, and `result_eq_ok_iff` and `result_eq_error_iff` say what the
result of a run tells about its workers.
-/

namespace Cascade

/-! ## One of several workers -/

/-- When one member of a list changes, the others are the same. -/
theorem exists_perm_set {α : Type} {l : List α} {i : Nat} {a : α} (h : l[i]? = some a) (b : α) :
    ∃ rest, l.Perm (a :: rest) ∧ (l.set i b).Perm (b :: rest) := by
  obtain ⟨hi, rfl⟩ := List.getElem?_eq_some_iff.mp h
  refine ⟨l.eraseIdx i, (List.getElem_cons_eraseIdx_perm hi).symm, ?_⟩
  have hset := List.getElem_cons_eraseIdx_perm (l := l.set i b) (n := i) (by simpa using hi)
  rw [List.getElem_set_self, List.eraseIdx_set_eq] at hset
  exact hset.symm

/-- A member of a list after one of them was replaced is the new one, or one of the others. -/
theorem cases_of_getElem?_set {α : Type} {l : List α} {i k : Nat} {a b : α}
    (h : (l.set i a)[k]? = some b) : k = i ∧ b = a ∨ k ≠ i ∧ l[k]? = some b := by
  rw [List.getElem?_set] at h
  by_cases hk : i = k
  · subst hk
    rw [if_pos rfl] at h
    split at h
    · exact Or.inl ⟨rfl, (Option.some.inj h).symm⟩
    · cases h
  · rw [if_neg hk] at h
    exact Or.inr ⟨Ne.symm hk, h⟩

/-- What changes in what a list shows when one member does. -/
theorem perm_filterMap_set {α γ : Type} (f : α → Option γ) {l : List α} {i : Nat} {a : α}
    (h : l[i]? = some a) (b : α) :
    ∃ rest, (l.filterMap f).Perm ((f a).toList ++ rest) ∧
      ((l.set i b).filterMap f).Perm ((f b).toList ++ rest) := by
  have hcons (x : α) (l : List α) : (x :: l).filterMap f = (f x).toList ++ l.filterMap f := by
    rw [List.filterMap_cons]
    cases f x <;> rfl
  obtain ⟨rest, hl, hset⟩ := exists_perm_set h b
  refine ⟨rest.filterMap f, ?_, ?_⟩
  · rw [← hcons]
    exact hl.filterMap f
  · rw [← hcons]
    exact hset.filterMap f

open Classical in
/-- A balance after one member of one side has changed. -/
theorem perm_balance {α : Type} {l l' m m' n n' a a' rest : List α} (h : l.Perm (m ++ n))
    (hold : n.Perm (a ++ rest)) (hnew : n'.Perm (a' ++ rest)) (ha : (l' ++ a).Perm (m' ++ a')) :
    (l ++ l').Perm (m ++ m' ++ n') := by
  rw [List.perm_iff_count] at *
  intro x
  have h := h x
  have hold := hold x
  have hnew := hnew x
  have ha := ha x
  simp only [List.count_append] at *
  omega

namespace Routine

variable {σ α : Type}

/-- The number of steps of a run. -/
def steps : Routine σ α → σ → Nat
  | .done _, _ => 0
  | .step update rest, s => (rest s).steps (update s) + 1

end Routine

namespace Pool

variable {ι σ : Type} {p : Provider ι σ} {pool pool' : Pool ι σ} {i : Nat}

/-! ## Schedules -/

@[simp]
theorem follow_nil (pool : Pool ι σ) : pool.follow p [] = pool := rfl

@[simp]
theorem follow_cons (pool : Pool ι σ) (i : Nat) (schedule : List Nat) :
    pool.follow p (i :: schedule) = ((pool.step p i).getD pool).follow p schedule := rfl

theorem follow_append (pool : Pool ι σ) (schedule schedule' : List Nat) :
    pool.follow p (schedule ++ schedule') = (pool.follow p schedule).follow p schedule' :=
  List.foldl_append

/-- The steps that a worker takes when it advances. -/
def advancing (pool : Pool ι σ) (i : Nat) : List Nat :=
  match pool.workers[i]? with
  | some (.working job) => List.replicate (job.steps pool.shared + 1) i
  | _ => [i]

/-- A worker that advances in its work takes the steps of its work, and one
more to leave it. -/
theorem follow_working (job : Job σ) (h : pool.workers[i]? = some (.working job)) :
    pool.follow p (List.replicate (job.steps pool.shared + 1) i) =
      ⟨(job.run pool.shared).2,
        pool.workers.set i (.afterJob p.start (job.run pool.shared).1)⟩ := by
  induction job generalizing pool with
  | done outcome => simp [Routine.steps, Routine.run, step, h]
  | step update rest ih =>
    have hlt : i < pool.workers.length := (List.getElem?_eq_some_iff.mp h).1
    have hstep : pool.step p i = some ⟨update pool.shared,
        pool.workers.set i (.working (rest pool.shared))⟩ := by
      simp [step, h]
    have hafter : (Pool.mk (update pool.shared)
        (pool.workers.set i (.working (rest pool.shared)))).workers[i]? =
        some (.working (rest pool.shared)) := by
      simp [hlt]
    rw [Routine.steps, List.replicate_succ, follow_cons, hstep, Option.getD_some]
    rw [ih pool.shared hafter]
    simp only [List.set_set]
    rfl

/-- Advancing is a run of steps of one worker. -/
theorem advance_eq_follow (h : pool.advance p i = some pool') :
    pool' = pool.follow p (pool.advancing i) := by
  unfold advance at h
  unfold advancing
  have hone (hstep : pool.step p i = some pool') : pool' = pool.follow p [i] := by
    rw [follow_cons, hstep]
    rfl
  cases hworker : pool.workers[i]? with
  | none =>
    rw [hworker] at h
    exact hone h
  | some worker =>
    rw [hworker] at h
    cases worker with
    | working job =>
      rw [Option.some.injEq] at h
      rw [← h]
      exact (follow_working job hworker).symm
    | asking | ended => exact hone h

/-- The first worker that can move, and the pool that its advance leaves. -/
def leader (p : Provider ι σ) (pool : Pool ι σ) : Option (Nat × Pool ι σ) :=
  (List.range pool.workers.length).findSome? fun i => (pool.advance p i).map (i, ·)

/-- The steps that finish a run. -/
def finishing (p : Provider ι σ) : Nat → Pool ι σ → List Nat
  | 0, _ => []
  | fuel + 1, pool =>
    match pool.leader p with
    | some (i, next) => pool.advancing i ++ finishing p fuel next
    | none => []

private theorem map_findSome?_aux {α β : Type} (f : α → Option β) (l : List α) :
    (l.findSome? fun a => (f a).map (a, ·)).map (·.2) = l.findSome? f := by
  induction l with
  | nil => rfl
  | cons a rest ih =>
    simp only [List.findSome?_cons]
    cases f a with
    | none => simpa using ih
    | some b => rfl

theorem finish_succ (fuel : Nat) (pool : Pool ι σ) :
    pool.finish p (fuel + 1) =
      match pool.leader p with
      | some (_, next) => next.finish p fuel
      | none => pool := by
  have hmap := map_findSome?_aux (pool.advance p) (List.range pool.workers.length)
  rw [finish, ← hmap]
  unfold leader
  generalize (List.range pool.workers.length).findSome? _ = found
  cases found <;> rfl

theorem advance_of_leader (h : pool.leader p = some (i, pool')) :
    pool.advance p i = some pool' := by
  obtain ⟨k, _, hk⟩ := List.exists_of_findSome?_eq_some h
  obtain ⟨next, hnext, heq⟩ := Option.map_eq_some_iff.mp hk
  cases heq
  exact hnext

/-- The steps that finish a run are a schedule like any other. -/
theorem finish_eq_follow (fuel : Nat) (pool : Pool ι σ) :
    pool.finish p fuel = pool.follow p (pool.finishing p fuel) := by
  induction fuel generalizing pool with
  | zero => rfl
  | succ fuel ih =>
    rw [finish_succ, finishing]
    cases hl : pool.leader p with
    | none => rfl
    | some found =>
      obtain ⟨i, next⟩ := found
      simp only
      rw [follow_append, ← advance_eq_follow (advance_of_leader hl), ih]

/-! ## The end of a run -/

/-- No worker can move. -/
def Stuck (p : Provider ι σ) (pool : Pool ι σ) : Prop := ∀ i, pool.step p i = none

/-- A pool without a leader is stuck: a worker that can step can advance. -/
theorem stuck_of_leader_none (h : pool.leader p = none) : pool.Stuck p := by
  intro i
  by_cases hi : i < pool.workers.length
  · have hnone := List.findSome?_eq_none_iff.mp h i (List.mem_range.mpr hi)
    simp only [Option.map_eq_none_iff] at hnone
    unfold advance at hnone
    split at hnone
    · cases hnone
    · exact hnone
  · have hout : pool.workers[i]? = none := by simp; omega
    simp [step, hout]

/-- If a measure falls whenever a worker advances, then fuel for the measure
is enough to come to the end. -/
theorem stuck_finish {Inv : Pool ι σ → Prop} {measure : Pool ι σ → Nat}
    (hadvance : ∀ pool i pool', Inv pool → pool.advance p i = some pool' →
      Inv pool' ∧ measure pool' < measure pool)
    {fuel : Nat} (hpool : Inv pool) (hfuel : measure pool < fuel) :
    (pool.finish p fuel).Stuck p := by
  induction fuel generalizing pool with
  | zero => omega
  | succ fuel ih =>
    rw [finish_succ]
    cases hl : pool.leader p with
    | none => exact stuck_of_leader_none hl
    | some found =>
      obtain ⟨i, next⟩ := found
      obtain ⟨hnext, hless⟩ := hadvance _ _ _ hpool (advance_of_leader hl)
      exact ih hnext (by omega)

/-- A pool that is finished needs no finishing. -/
theorem finish_of_isFinished (h : pool.isFinished = true) (fuel : Nat) :
    pool.finish p fuel = pool := by
  cases fuel with
  | zero => rfl
  | succ fuel =>
    rw [finish_succ]
    cases hl : pool.leader p with
    | none => rfl
    | some found =>
      have hadvance := advance_of_leader hl
      cases hworker : pool.workers[found.1]? with
      | none => simp [advance, step, hworker] at hadvance
      | some worker =>
        have hended := List.all_eq_true.mp h worker (List.mem_of_getElem? hworker)
        cases worker with
        | ended outcome => simp [advance, step, hworker] at hadvance
        | asking | working => cases hended

/-! ## The result of a run -/

theorem mem_errors {e : Error} :
    (i, e) ∈ pool.errors ↔
      ∃ fault, pool.workers[i]? = some (.ended (.error fault)) ∧ e = faultError i fault := by
  unfold errors
  simp only [List.mem_filterMap, Prod.exists, List.mem_zipIdx_iff_getElem?]
  constructor
  · rintro ⟨w, k, hw, h⟩
    split at h
    · rename_i fault hfault
      cases h
      cases w <;> simp only [Worker.outcome?, reduceCtorEq, Option.some.injEq] at hfault
      exact ⟨fault, hfault ▸ hw, rfl⟩
    · cases h
  · rintro ⟨fault, hw, rfl⟩
    exact ⟨_, i, hw, rfl⟩

/-- A run succeeds when no worker met an error. -/
theorem result_eq_ok_iff :
    pool.result = .ok () ↔
      ∀ (i : Nat) (fault : Fault), pool.workers[i]? ≠ some (Worker.ended (.error fault)) := by
  unfold result
  constructor
  · intro h i fault hw
    have hmem := mem_errors.mpr ⟨fault, hw, rfl⟩
    split at h
    · rename_i hnil
      rw [hnil] at hmem
      cases hmem
    · cases h
  · intro h
    split
    · rfl
    · rename_i k e rest hcons
      have hmem : (k, e) ∈ pool.errors := hcons ▸ List.mem_cons_self ..
      obtain ⟨fault, hw, _⟩ := mem_errors.mp hmem
      exact absurd hw (h k fault)

/-- The errors come in the order of the workers. -/
theorem pairwise_errors (pool : Pool ι σ) : pool.errors.Pairwise (·.1 < ·.1) := by
  unfold errors
  rw [List.pairwise_filterMap, List.pairwise_iff_getElem]
  intro k l hk hl hkl found hfound found' hfound'
  simp only [List.getElem_zipIdx, Nat.zero_add] at hfound hfound'
  split at hfound
  · split at hfound'
    · cases hfound
      cases hfound'
      exact hkl
    · cases hfound'
  · cases hfound

/-- The error of a run is that of the first worker that met one. -/
theorem result_eq_error_iff {e : Error} :
    pool.result = .error e ↔
      ∃ i fault, pool.workers[i]? = some (.ended (.error fault)) ∧ e = faultError i fault ∧
        ∀ (j : Nat) (fault' : Fault),
          pool.workers[j]? = some (Worker.ended (.error fault')) → i ≤ j := by
  have hsorted := pool.pairwise_errors
  unfold result
  cases herrors : pool.errors with
  | nil =>
    refine iff_of_false nofun ?_
    rintro ⟨i, fault, hw, _⟩
    have hmem := mem_errors.mpr ⟨fault, hw, rfl⟩
    rw [herrors] at hmem
    cases hmem
  | cons first rest =>
    obtain ⟨k, e'⟩ := first
    rw [herrors, List.pairwise_cons] at hsorted
    have hfirst : (k, e') ∈ pool.errors := herrors ▸ List.mem_cons_self ..
    have hleast {j : Nat} {fault : Fault}
        (hw : pool.workers[j]? = some (.ended (.error fault))) :
        (j, faultError j fault) = (k, e') ∨ k < j := by
      have hmem := mem_errors.mpr ⟨fault, hw, rfl⟩
      rw [herrors, List.mem_cons] at hmem
      exact hmem.imp id fun hrest => hsorted.1 _ hrest
    constructor
    · intro h
      cases h
      obtain ⟨fault, hw, he⟩ := mem_errors.mp hfirst
      refine ⟨k, fault, hw, he, fun j fault' hw' => ?_⟩
      rcases hleast hw' with heq | hlt
      · cases heq
        exact Nat.le_refl _
      · exact Nat.le_of_lt hlt
    · rintro ⟨i, fault, hw, rfl, hmin⟩
      obtain ⟨faultₖ, hwₖ, _⟩ := mem_errors.mp hfirst
      have hle := hmin k faultₖ hwₖ
      rcases hleast hw with heq | hlt
      · cases heq
        rfl
      · omega

/-- The error of a run is one that a worker met. -/
theorem exists_fault_of_result {e : Error} (h : pool.result = .error e) :
    ∃ i fault, pool.workers[i]? = some (.ended (.error fault)) ∧ e = faultError i fault := by
  obtain ⟨i, fault, hw, he, _⟩ := result_eq_error_iff.mp h
  exact ⟨i, fault, hw, he⟩

end Pool

end Cascade
