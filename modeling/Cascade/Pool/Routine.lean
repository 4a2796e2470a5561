/-!
# Routines

A routine is a computation on shared state that is cut into atomic steps.
Between two steps of one routine other routines may change the state.
`Routine.run` runs a routine to its end without interruption.
-/

namespace Cascade

/-- A computation in atomic steps on a state of type `σ`.  The rest of a
routine may depend on the state that its first step saw. -/
inductive Routine (σ α : Type) where
  | done (answer : α)
  | step (update : σ → σ) (rest : σ → Routine σ α)

namespace Routine

variable {σ τ α β : Type}

/-- Go on with another routine. -/
def bind : Routine σ α → (α → Routine σ β) → Routine σ β
  | .done a, f => f a
  | .step update rest, f => .step update fun s => (rest s).bind f

instance : Monad (Routine σ) where
  pure := .done
  bind := bind

/-- One atomic step. -/
def atomic (f : σ → α × σ) : Routine σ α :=
  .step (fun s => (f s).2) fun s => .done (f s).1

/-- An atomic step that only changes the state. -/
def modify (f : σ → σ) : Routine σ Unit := .step f fun _ => .done ()

/-- An atomic step that only looks at the state. -/
def inspect (f : σ → α) : Routine σ α := .step id fun s => .done (f s)

/-- A routine on a part of a larger state. -/
def lift (get : τ → σ) (put : σ → τ → τ) : Routine σ α → Routine τ α
  | .done a => .done a
  | .step update rest =>
    .step (fun t => put (update (get t)) t) fun t => (rest (get t)).lift get put

/-- Run to the end without interruption. -/
def run : Routine σ α → σ → α × σ
  | .done a, s => (a, s)
  | .step update rest, s => (rest s).run (update s)

end Routine

end Cascade
