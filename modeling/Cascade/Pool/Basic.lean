import Cascade.Error
import Cascade.Log
import Cascade.Pool.Routine

/-!
# A pool of workers

A pool runs a fixed number of workers on shared state.  Each of them asks
a provider for work, does it, and asks again.  A worker ends when the
provider has nothing more or fails, or when its work fails or crashes; the
others go on.

`Pool.step` is one atomic step of one worker.  A run of the pool is any
sequence of such steps, and `Pool.follow` takes the steps that a list of
worker numbers prescribes.  `Pool.finish` ends a run: it lets the first
worker that can move do so, and lets it do its whole work at once.
-/

namespace Cascade

/-- Why a worker ended early. -/
inductive Fault where
  | error (e : Error)
  | crash
deriving Repr, DecidableEq

/-- A piece of work on shared state. -/
abbrev Job (σ : Type) := Routine σ (Except Fault Unit)

/-- Where a request for work leads to, one step on.  A request may take
several steps; `ι` names the stages in between. -/
inductive Progress (ι σ : Type) where
  | asking (stage : ι)
  | job (job : Job σ)
  | exhausted
  | failed (e : Error)

/-- A source of work.  `ask worker stage s` is one atomic step of a
worker's request; `none` says that the worker has to wait until the shared
state changes. -/
structure Provider (ι σ : Type) where
  start : ι
  ask : Nat → ι → σ → Option (σ × Progress ι σ)

/-- A worker asks for work, does it, or has ended. -/
inductive Worker (ι σ : Type) where
  | asking (stage : ι)
  | working (job : Job σ)
  | ended (outcome : Except Fault Unit)

namespace Worker

variable {ι σ : Type}

/-- How a worker ended, if it did. -/
def outcome? : Worker ι σ → Option (Except Fault Unit)
  | .ended outcome => some outcome
  | _ => none

/-- The worker that a step of a request leaves. -/
def ofProgress : Progress ι σ → Worker ι σ
  | .asking stage => .asking stage
  | .job job => .working job
  | .exhausted => .ended (.ok ())
  | .failed e => .ended (.error (.error e))

/-- A worker whose work has come to its end. -/
def afterJob (start : ι) : Except Fault Unit → Worker ι σ
  | .ok () => .asking start
  | .error fault => .ended (.error fault)

end Worker

/-- Shared state and the workers on it. -/
structure Pool (ι σ : Type) where
  shared : σ
  workers : List (Worker ι σ)

namespace Pool

variable {ι σ : Type}

/-- A pool of `count` workers that are about to ask for work. -/
def start (p : Provider ι σ) (count : Nat) (s : σ) : Pool ι σ :=
  ⟨s, List.replicate count (.asking p.start)⟩

/-- One atomic step of a worker.  There is none when it has ended or has to
wait. -/
def step (p : Provider ι σ) (pool : Pool ι σ) (i : Nat) : Option (Pool ι σ) :=
  match pool.workers[i]? with
  | some (.asking stage) =>
    (p.ask i stage pool.shared).map fun (s, progress) =>
      ⟨s, pool.workers.set i (.ofProgress progress)⟩
  | some (.working (.step update rest)) =>
    some ⟨update pool.shared, pool.workers.set i (.working (rest pool.shared))⟩
  | some (.working (.done outcome)) =>
    some { pool with workers := pool.workers.set i (.afterJob p.start outcome) }
  | some (.ended _) | none => none

/-- Take one step of each worker that a schedule names, in its order.  A
worker that cannot move is passed over. -/
def follow (p : Provider ι σ) (pool : Pool ι σ) (schedule : List Nat) : Pool ι σ :=
  schedule.foldl (fun pool i => (pool.step p i).getD pool) pool

/-- Several steps of a worker at once: a step of its request, or all that
is left of its work. -/
def advance (p : Provider ι σ) (pool : Pool ι σ) (i : Nat) : Option (Pool ι σ) :=
  match pool.workers[i]? with
  | some (.working job) =>
    let (outcome, s) := job.run pool.shared
    some ⟨s, pool.workers.set i (.afterJob p.start outcome)⟩
  | _ => pool.step p i

/-- Let the first worker that can move advance, at most `fuel` times. -/
def finish (p : Provider ι σ) : Nat → Pool ι σ → Pool ι σ
  | 0, pool => pool
  | fuel + 1, pool =>
    match (List.range pool.workers.length).findSome? (pool.advance p) with
    | some pool => finish p fuel pool
    | none => pool

/-- Whether every worker has ended. -/
def isFinished (pool : Pool ι σ) : Bool := pool.workers.all (·.outcome?.isSome)

/-- The error for which a worker ended early. -/
def faultError (worker : Nat) : Fault → Error
  | .error e => e
  | .crash => .other (.ofText ("scheduler worker " ++ toString worker ++ " terminated abnormally"))

/-- The errors for which workers ended early, in the order of the workers. -/
def errors (pool : Pool ι σ) : List (Nat × Error) :=
  pool.workers.zipIdx.filterMap fun (w, i) =>
    match w.outcome? with
    | some (.error fault) => some (i, faultError i fault)
    | _ => none

/-- The outcome of a run: the error of the first worker that met one. -/
def result (pool : Pool ι σ) : Except Error Unit :=
  match pool.errors with
  | [] => .ok ()
  | (_, e) :: _ => .error e

/-- What is logged about the workers that ended early. -/
def warnings (pool : Pool ι σ) : List Log.Entry :=
  pool.errors.map fun (i, e) =>
    .warn .scheduler "scheduler: worker stopped with error"
      [.count "worker" i, .shown "error" e.message]

end Pool

end Cascade
