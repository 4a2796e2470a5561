import Cascade.Graph.Walk
import Cascade.Verb

/-!
# Handing out the nodes of a graph

A traversal hands out the nodes of a graph one after another, each at most
once, and shrinks the graph as they are released.

* Forward, it offers the first node, children first, that has no children
  left.  A node that is released as done is removed, which may leave its
  parents without children.  A node that is released as failed stays, and
  so holds up whatever is above it.
* Reverse, it offers the first node, parents first, whose only parent is
  the root.  A released node is removed either way, and its orphans move
  below the root.

When nothing can be offered but some claims are still held, the answer is
to wait: a release may make another node eligible.
-/

namespace Cascade

/-- The state of a traversal: what is left of the graph, the IDs that have
been handed out, and the number of claims that are held. -/
structure Traversal (α : Type) where
  direction : Direction
  graph : Graph α
  visited : List String
  held : Nat
  aborted : Bool

/-- A node that has been handed out.  It is released by its ID, which a dependency in a
resolved graph has as well. -/
structure Claim (α : Type) where
  id : String
  payload : α
deriving Repr, DecidableEq

/-- What a traversal answers to a request for work. -/
inductive Offer (α : Type) where
  | claim (claim : Claim α)
  /-- Nothing can be handed out now, but a release may change that. -/
  | pending
  /-- Nothing will ever be handed out again. -/
  | exhausted
deriving Repr, DecidableEq

namespace Traversal

variable {α : Type}

/-- A traversal that has not begun. -/
def start (direction : Direction) (graph : Graph α) : Traversal α :=
  ⟨direction, graph, [], 0, false⟩

/-- The number of nodes that are left, the root apart. -/
def remaining (t : Traversal α) : Nat := t.graph.size

/-- Whether a node can be handed out. -/
def eligible (t : Traversal α) (n : Node α) : Bool :=
  n.position ≠ Graph.root && !t.visited.contains n.id &&
    match t.direction with
    | .forward => n.isLeaf
    | .reverse => n.parents.all (· = Graph.root)

/-- The position of the node to hand out next. -/
def candidate? (t : Traversal α) : Option Nat :=
  match t.direction with
  | .forward => Id.run (t.graph.postOrderSearch Graph.root fun n => pure (t.eligible n))
  | .reverse => Id.run (t.graph.preOrderSearch Graph.root fun n => pure (t.eligible n))

/-- The claim on the node to hand out next. -/
def candidateClaim? (t : Traversal α) : Option (Claim α) := do
  let n ← t.graph.node? (← t.candidate?)
  let payload ← n.payload
  return ⟨n.id, payload⟩

/-- Answer a request for work. -/
def offer (t : Traversal α) : Offer α × Traversal α :=
  if t.aborted then (.exhausted, t)
  else
    match t.candidateClaim? with
    | some claim =>
      (.claim claim, { t with visited := claim.id :: t.visited, held := t.held + 1 })
    | none => if t.held = 0 then (.exhausted, t) else (.pending, t)

/-- Take a finished node out of the graph. -/
def prune (t : Traversal α) (id : String) : Except Error (Graph α) :=
  match t.direction with
  | .forward => (t.graph.remove id).map (·.2)
  | .reverse => (t.graph.removeAndReparent id).map (·.2)

/-- Release a claim.  The error, if any, says why a finished node could not
be taken out of the graph. -/
def release (t : Traversal α) (id : String) (succeeded : Bool) : Option Error × Traversal α :=
  let t := { t with held := t.held - 1 }
  if succeeded || t.direction == .reverse then
    match t.prune id with
    | .ok graph => (none, { t with graph })
    | .error e => (some e, t)
  else (none, t)

/-- Hand out nothing any more.  Claims that are held are released as
before. -/
def abort (t : Traversal α) : Traversal α := { t with aborted := true }

end Traversal

end Cascade
