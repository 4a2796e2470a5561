import Cascade.Graph.Basic

/-!
# Walks through a dependency graph

A walk follows the child edges from a start and shows each node that it
comes to, once for each path that leads there, to a visitor.  The visitor
answers in a monad of its own, so it may count its calls or fail; when it
answers `true` the walk ends with that node.

Both walks take a bound on the number of nodes on a path.  Below a node
from which no cycle can be reached no path is longer than the arena, and
`Graph.preOrderSearch` and `Graph.postOrderSearch` use that bound.
-/

namespace Cascade.Graph

variable {α : Type} {m : Type → Type} [Monad m]

/-- Visit a node before what is below it. -/
def preOrder (g : Graph α) (visit : Node α → m Bool) : Nat → Nat → m (Option Nat)
  | 0, _ => pure none
  | depth + 1, current =>
    match g.node? current with
    | none => pure none
    | some n => do
      if ← visit n then pure (some current)
      else n.children.findSomeM? (preOrder g visit depth)

/-- Visit a node after what is below it. -/
def postOrder (g : Graph α) (visit : Node α → m Bool) : Nat → Nat → m (Option Nat)
  | 0, _ => pure none
  | depth + 1, current =>
    match g.node? current with
    | none => pure none
    | some n => do
      match ← n.children.findSomeM? (postOrder g visit depth) with
      | some found => pure (some found)
      | none => if ← visit n then pure (some current) else pure none

/-- The walk that visits parents first, without cycles below `start`. -/
def preOrderSearch (g : Graph α) (start : Nat) (visit : Node α → m Bool) : m (Option Nat) :=
  g.preOrder visit g.slots.length start

/-- The walk that visits children first, without cycles below `start`. -/
def postOrderSearch (g : Graph α) (start : Nat) (visit : Node α → m Bool) : m (Option Nat) :=
  g.postOrder visit g.slots.length start

/-- A bound for a walk whose visitor ends it after at most `calls` calls,
cycles or not: between two calls no node comes twice. -/
def depthWithin (g : Graph α) (calls : Nat) : Nat := (calls + 2) * (g.slots.length + 1)

/-- The first leaf, parents first. -/
def nextLeaf (g : Graph α) (start : Nat) : Option Nat :=
  Id.run (g.preOrderSearch start fun n => pure n.isLeaf)

/-- How the removal of leaf after leaf went: the IDs in the order of their
removal, the graph that is left, and the error that ended it early. -/
structure Pruned (α : Type) where
  order : List String
  graph : Graph α
  stopped : Option Error

/-- Remove the first leaf again and again, at most `steps` times. -/
def pruneLeaves : Nat → List String → Graph α → Pruned α
  | 0, order, g => ⟨order, g, none⟩
  | steps + 1, order, g =>
    if g.isEmpty then ⟨order, g, none⟩
    else
      match (g.nextLeaf root).bind g.node? with
      | none => ⟨order, g, none⟩
      | some leaf =>
        match g.remove leaf.id with
        | .error e => ⟨order, g, some e⟩
        | .ok (_, g) => pruneLeaves steps (order ++ [leaf.id]) g

/-- Remove the first leaf until the root alone is left. -/
def prune (g : Graph α) : Pruned α := g.pruneLeaves g.slots.length []

end Cascade.Graph
