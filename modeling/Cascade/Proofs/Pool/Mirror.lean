import Cascade.Proofs.Pool.Finish
import Mathlib.Data.Option.Basic

/-!
# Pools that mirror each other

A routine mirrors another if it does the same on a larger state, of which
`forget` leaves what the other one works on, and besides takes steps that
change nothing of that.  A pool mirrors another if its workers do.

Whatever one pool does, a pool that mirrors it can do as well: `Mirrors.step`
is about one step, in which a mirror may first take any number of steps of its
own, and `Mirrors.follow` is about whole schedules.
-/

namespace Cascade

variable {ι σ τ α γ : Type} {forget : τ → σ}

namespace Routine

/-- A routine does on a larger state what another one does, and takes steps
besides that change nothing of what the other one works on. -/
inductive Mirrors (forget : τ → σ) : Routine τ α → Routine σ α → Prop where
  | done (a : α) : Mirrors forget (.done a) (.done a)
  | step {update' : τ → τ} {rest' : τ → Routine τ α} {update : σ → σ} {rest : σ → Routine σ α}
      (hupdate : ∀ t, forget (update' t) = update (forget t))
      (hrest : ∀ t, Mirrors forget (rest' t) (rest (forget t))) :
      Mirrors forget (.step update' rest') (.step update rest)
  | extra {update' : τ → τ} {rest' : τ → Routine τ α} {r : Routine σ α}
      (hupdate : ∀ t, forget (update' t) = forget t) (hrest : ∀ t, Mirrors forget (rest' t) r) :
      Mirrors forget (.step update' rest') r

theorem mirrors_modify {f' : τ → τ} {f : σ → σ} (h : ∀ t, forget (f' t) = f (forget t)) :
    (modify f').Mirrors forget (modify f) :=
  .step h fun _ => .done ()

theorem Mirrors.bind {r' : Routine τ α} {r : Routine σ α} {f' : α → Routine τ γ}
    {f : α → Routine σ γ} (hr : r'.Mirrors forget r) (hf : ∀ a, (f' a).Mirrors forget (f a)) :
    (r'.bind f').Mirrors forget (r.bind f) := by
  induction hr with
  | done a => exact hf a
  | step hupdate _ ih => exact .step hupdate ih
  | extra hupdate _ ih => exact .extra hupdate ih

/-- Run to the end, a mirror answers the same. -/
theorem Mirrors.run {r' : Routine τ α} {r : Routine σ α} (hr : r'.Mirrors forget r) (t : τ) :
    r.run (forget t) = ((r'.run t).1, forget (r'.run t).2) := by
  induction hr generalizing t with
  | done a => rfl
  | @step update' _ _ _ hupdate _ ih =>
    have hnext := ih t (update' t)
    rwa [hupdate] at hnext
  | @extra update' _ _ hupdate _ ih =>
    have hnext := ih t (update' t)
    rwa [hupdate] at hnext

end Routine

/-- A worker mirrors another at the same stage of its request or its life. -/
inductive Worker.Mirrors (forget : τ → σ) : Worker ι τ → Worker ι σ → Prop where
  | asking (stage : ι) : Mirrors forget (.asking stage) (.asking stage)
  | working {job' : Job τ} {job : Job σ} (h : job'.Mirrors forget job) :
      Mirrors forget (.working job') (.working job)
  | ended (outcome : Except Fault Unit) : Mirrors forget (.ended outcome) (.ended outcome)

theorem Worker.Mirrors.outcome? {worker' : Worker ι τ} {worker : Worker ι σ}
    (h : worker'.Mirrors forget worker) : worker'.outcome? = worker.outcome? := by
  cases h <;> rfl

/-- What a provider answers, a mirror answers as well. -/
structure Provider.Mirrors (forget : τ → σ) (q' : Provider ι τ) (q : Provider ι σ) : Prop where
  start : q'.start = q.start
  ask : ∀ {worker stage t s progress}, q.ask worker stage (forget t) = some (s, progress) →
    ∃ t' progress', q'.ask worker stage t = some (t', progress') ∧ forget t' = s ∧
      (Worker.ofProgress progress').Mirrors forget (Worker.ofProgress progress)

namespace Pool

/-- The workers of a pool mirror those of another, and so does what they
share. -/
structure Mirrors (forget : τ → σ) (pool' : Pool ι τ) (pool : Pool ι σ) : Prop where
  shared : forget pool'.shared = pool.shared
  workers (i : Nat) : Option.Rel (Worker.Mirrors forget) pool'.workers[i]? pool.workers[i]?

variable {pool' : Pool ι τ} {pool next : Pool ι σ} {q' : Provider ι τ} {q : Provider ι σ} {i : Nat}

/-- The error that a worker's outcome adds to those of the pool. -/
def errorAt : Option (Except Fault Unit) → Nat → Option (Nat × Error)
  | some (.error fault), i => some (i, faultError i fault)
  | _, _ => none

/-- The errors of a pool are those of the outcomes of its workers. -/
theorem errors_eq (pool : Pool ι σ) : pool.errors =
    (pool.workers.map (·.outcome?)).zipIdx.filterMap fun x => errorAt x.1 x.2 := by
  rw [List.zipIdx_map, List.filterMap_map]
  unfold errors
  congr 1
  funext x
  obtain ⟨w, i⟩ := x
  rcases w with _ | _ | (_ | _) <;> rfl

theorem mirrors_start (hq : q'.Mirrors forget q) (workers : Nat) (t : τ) :
    (start q' workers t).Mirrors forget (start q workers (forget t)) where
  shared := rfl
  workers i := by
    simp only [start, List.getElem?_replicate, hq.start]
    split
    · exact .some (.asking q.start)
    · exact .none

namespace Mirrors

/-- Where there is a worker, its mirror is at the same place. -/
theorem exists_worker (h : pool'.Mirrors forget pool) {worker : Worker ι σ}
    (hi : pool.workers[i]? = some worker) :
    ∃ worker', pool'.workers[i]? = some worker' ∧ worker'.Mirrors forget worker := by
  have hrel := h.workers i
  rw [hi] at hrel
  generalize pool'.workers[i]? = found at hrel
  cases hrel with
  | some hworker => exact ⟨_, rfl, hworker⟩

/-- One worker of both pools has moved on. -/
theorem set (h : pool'.Mirrors forget pool) (hlt' : i < pool'.workers.length)
    (hlt : i < pool.workers.length) {t : τ} {s : σ} (hshared : forget t = s)
    {worker' : Worker ι τ} {worker : Worker ι σ} (hworker : worker'.Mirrors forget worker) :
    (Pool.mk t (pool'.workers.set i worker')).Mirrors forget ⟨s, pool.workers.set i worker⟩ where
  shared := hshared
  workers k := by
    simp only [List.getElem?_set, hlt', hlt, if_true]
    split
    · exact .some hworker
    · exact h.workers k

/-- A worker that has come to where its mirror is about to move needs one more
step. -/
theorem follow_working (h : pool'.Mirrors forget pool) (hq : q'.Mirrors forget q) {job' : Job τ}
    {job : Job σ} (hjob : job'.Mirrors forget job) (hi' : pool'.workers[i]? = some (.working job'))
    (hi : pool.workers[i]? = some (.working job)) (hnext : pool.step q i = some next) :
    ∃ n, (pool'.follow q' (List.replicate n i)).Mirrors forget next := by
  have hlt := (List.getElem?_eq_some_iff.mp hi).1
  induction hjob generalizing pool' with
  | done outcome =>
    have hlt' := (List.getElem?_eq_some_iff.mp hi').1
    simp only [step, hi, Option.some.injEq] at hnext
    refine ⟨1, ?_⟩
    simp only [List.replicate_one, follow_cons, follow_nil, step, hi', Option.getD_some]
    rw [← hnext]
    rw [hq.start]
    refine h.set hlt' hlt h.shared ?_
    rcases outcome with fault | ⟨⟩
    · exact .ended _
    · exact .asking _
  | step hupdate hrest _ =>
    have hlt' := (List.getElem?_eq_some_iff.mp hi').1
    simp only [step, hi, Option.some.injEq] at hnext
    refine ⟨1, ?_⟩
    simp only [List.replicate_one, follow_cons, follow_nil, step, hi', Option.getD_some]
    rw [← hnext, ← h.shared]
    exact h.set hlt' hlt (hupdate _) (.working (hrest _))
  | @extra update' rest' _ hupdate hrest ih =>
    have hlt' := (List.getElem?_eq_some_iff.mp hi').1
    have hstep : pool'.step q' i =
        some ⟨update' pool'.shared, pool'.workers.set i (.working (rest' pool'.shared))⟩ := by
      simp [step, hi']
    have hafter : (Pool.mk (update' pool'.shared)
        (pool'.workers.set i (.working (rest' pool'.shared)))).Mirrors forget pool := by
      have hset := h.set hlt' hlt ((hupdate _).trans h.shared) (.working (hrest pool'.shared))
      obtain ⟨_, hget⟩ := List.getElem?_eq_some_iff.mp hi
      rwa [← hget, List.set_getElem_self] at hset
    obtain ⟨n, hn⟩ := ih pool'.shared hafter (by simp [hlt']) hi
    refine ⟨n + 1, ?_⟩
    rwa [List.replicate_succ, follow_cons, hstep, Option.getD_some]

/-- Whatever step a worker takes, its mirror comes to the same in some steps. -/
theorem step (h : pool'.Mirrors forget pool) (hq : q'.Mirrors forget q)
    (hnext : pool.step q i = some next) :
    ∃ n, (pool'.follow q' (List.replicate n i)).Mirrors forget next := by
  cases hi : pool.workers[i]? with
  | none => simp [Pool.step, hi] at hnext
  | some worker =>
    obtain ⟨worker', hi', hworker⟩ := h.exists_worker hi
    cases hworker with
    | asking stage =>
      simp only [Pool.step, hi, Option.map_eq_some_iff] at hnext
      obtain ⟨⟨s, progress⟩, hask, rfl⟩ := hnext
      rw [← h.shared] at hask
      obtain ⟨t, progress', hask', hshared, hprogress⟩ := hq.ask hask
      refine ⟨1, ?_⟩
      simp only [List.replicate_one, follow_cons, follow_nil, Pool.step, hi', hask',
        Option.map_some, Option.getD_some]
      exact h.set (List.getElem?_eq_some_iff.mp hi').1 (List.getElem?_eq_some_iff.mp hi).1
        hshared hprogress
    | working hjob => exact h.follow_working hq hjob hi' hi hnext
    | ended outcome => simp [Pool.step, hi] at hnext

/-- Whatever a schedule leads to, there is a schedule that leads the mirror to the
same. -/
theorem follow (h : pool'.Mirrors forget pool) (hq : q'.Mirrors forget q)
    (schedule : List Nat) :
    ∃ schedule', (pool'.follow q' schedule').Mirrors forget (pool.follow q schedule) := by
  induction schedule generalizing pool' pool with
  | nil => exact ⟨[], h⟩
  | cons i schedule ih =>
    rw [follow_cons]
    cases hnext : pool.step q i with
    | none => exact ih h
    | some next =>
      obtain ⟨n, hn⟩ := h.step hq hnext
      obtain ⟨schedule', hschedule⟩ := ih hn
      exact ⟨List.replicate n i ++ schedule', by rwa [follow_append]⟩

/-- The workers have ended in the same way. -/
theorem outcomes (h : pool'.Mirrors forget pool) :
    pool'.workers.map (·.outcome?) = pool.workers.map (·.outcome?) := by
  refine List.ext_getElem? fun i => ?_
  rw [List.getElem?_map, List.getElem?_map]
  have hi := h.workers i
  generalize pool'.workers[i]? = found', pool.workers[i]? = found at hi
  cases hi with
  | some hworker => simp [hworker.outcome?]
  | none => rfl

theorem errors (h : pool'.Mirrors forget pool) : pool'.errors = pool.errors := by
  rw [errors_eq, errors_eq, h.outcomes]

theorem result (h : pool'.Mirrors forget pool) : pool'.result = pool.result := by
  rw [Pool.result, Pool.result, h.errors]

theorem warnings (h : pool'.Mirrors forget pool) : pool'.warnings = pool.warnings := by
  rw [Pool.warnings, Pool.warnings, h.errors]

theorem isFinished (h : pool'.Mirrors forget pool) : pool'.isFinished = pool.isFinished := by
  have heq {υ : Type} (pool : Pool ι υ) :
      pool.isFinished = (pool.workers.map (·.outcome?)).all Option.isSome := by
    rw [List.all_map]
    rfl
  rw [heq, heq, h.outcomes]

end Mirrors

end Pool

end Cascade
