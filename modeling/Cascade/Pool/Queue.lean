import Cascade.Pool.Basic

/-!
# Work from a queue

A provider that hands out a fixed list of answers in order, and then has
nothing more for ever.
-/

namespace Cascade

/-- What a queue answers to one request. -/
inductive Response where
  /-- Work that pauses `pauses` times and then succeeds. -/
  | succeed (name : String) (pauses : Nat)
  /-- Work that fails. -/
  | fail (e : Error) (pauses : Nat)
  /-- Work that crashes. -/
  | crash (pauses : Nat)
  /-- The request itself fails. -/
  | refuse (e : Error)
  /-- There is nothing to do. -/
  | nothing
deriving Repr, DecidableEq

/-- The answers that are left, the number of requests so far, and the names
of the work that succeeded, in order. -/
structure Queue where
  left : List Response
  requests : Nat
  succeeded : List String
deriving Repr, DecidableEq

namespace Queue

/-- A queue that has not been asked yet. -/
def ofList (responses : List Response) : Queue := ⟨responses, 0, []⟩

/-- Pause, then end in one more step. -/
def paused : Nat → (Queue → Queue) → Except Fault Unit → Job Queue
  | 0, update, outcome => .step update fun _ => .done outcome
  | n + 1, update, outcome => .step id fun _ => paused n update outcome

/-- The progress of a request that meets a response. -/
def progress : Response → Progress Unit Queue
  | .succeed name pauses =>
    .job (paused pauses (fun q => { q with succeeded := q.succeeded ++ [name] }) (.ok ()))
  | .fail e pauses => .job (paused pauses id (.error (.error e)))
  | .crash pauses => .job (paused pauses id (.error .crash))
  | .refuse e => .failed e
  | .nothing => .exhausted

/-- The queue as a provider: a request is one step. -/
def provider : Provider Unit Queue where
  start := ()
  ask _ _ q :=
    match q.left with
    | [] => some ({ q with requests := q.requests + 1 }, .exhausted)
    | r :: rest => some ({ q with left := rest, requests := q.requests + 1 }, progress r)

/-- Run a pool of `count` workers on a queue: first as the schedule says,
then to the end.  A worker moves at most twice for each response and once
to end. -/
def run (schedule : List Nat) (count : Nat) (responses : List Response) : Pool Unit Queue :=
  let pool := (Pool.start provider count (ofList responses)).follow provider schedule
  pool.finish provider (2 * responses.length + 2 * count + 1)

end Queue

end Cascade
