import Cascade.Error
import Std.Data.TreeMap

/-!
# Dependency graphs

A graph is an arena of slots.  Slot `0` holds the root, which carries no
payload; every other slot holds a node or has been vacated.  A slot is
never used twice, so the position of a node is a stable name for it.
`Graph.positions` finds the position of an ID.

Edges are kept on both sides.  `children` lists the targets of a node in
the order in which they were linked, and `parents` the sources.  A node
with several parents is one shared node.

`Graph.insert` keeps a graph free of cycles: it refuses an edge when its
source can already be reached from its target.  `Graph.addEdge` does not
look for cycles.
-/

namespace Cascade

/-- A node of a dependency graph. -/
structure Node (α : Type) where
  position : Nat
  id : String
  payload : Option α
  children : List Nat
  parents : List Nat
deriving Repr, DecidableEq

namespace Node

variable {α : Type}

/-- A node without edges. -/
def isolated (position : Nat) (id : String) (payload : Option α) : Node α :=
  ⟨position, id, payload, [], []⟩

/-- A leaf has no children. -/
def isLeaf (n : Node α) : Bool := n.children.isEmpty

end Node

/-- A directed graph with a root. -/
structure Graph (α : Type) where
  slots : List (Option (Node α))
  positions : Std.TreeMap String Nat

namespace Graph

variable {α : Type}

/-- The position of the root. -/
def root : Nat := 0

/-- The graph of the root alone. -/
def new (rootId : String) : Graph α :=
  ⟨[some (.isolated root rootId none)], (∅ : Std.TreeMap String Nat).insert rootId root⟩

/-- The node at a position, if the slot is occupied. -/
def node? (g : Graph α) (position : Nat) : Option (Node α) := g.slots[position]?.join

/-- The position of an ID. -/
def position? (g : Graph α) (id : String) : Option Nat := g.positions[id]?

/-- The node with an ID. -/
def find? (g : Graph α) (id : String) : Option (Node α) := (g.position? id).bind g.node?

/-- Whether an ID is registered. -/
def contains (g : Graph α) (id : String) : Bool := g.positions.contains id

/-- The number of registered nodes, the root apart. -/
def size (g : Graph α) : Nat := g.positions.size - 1

/-- Whether no node but the root is left. -/
def isEmpty (g : Graph α) : Bool := g.size == 0

/-- The occupied slots, in order. -/
def nodes (g : Graph α) : List (Node α) := g.slots.filterMap id

/-- All IDs but the root's, in the order of the slots. -/
def ids (g : Graph α) : List String :=
  (g.nodes.filter (·.position ≠ root)).map (·.id)

/-- The children of the node at a position; a vacated slot has none. -/
def childrenOf (g : Graph α) (position : Nat) : List Nat :=
  ((g.node? position).map (·.children)).getD []

/-- Change the node at a position, if there is one. -/
def modifyAt (g : Graph α) (position : Nat) (f : Node α → Node α) : Graph α :=
  { g with slots := g.slots.modify position (Option.map f) }

/-- Change the payload of the node with an ID, if there is one. -/
def modifyPayload (g : Graph α) (id : String) (f : α → α) : Graph α :=
  match g.position? id with
  | some position => g.modifyAt position fun n => { n with payload := n.payload.map f }
  | none => g

/-- Add a node without edges in a fresh slot. -/
def register (g : Graph α) (id : String) (payload : α) : Nat × Graph α :=
  let position := g.slots.length
  (position,
    { slots := g.slots ++ [some (.isolated position id (some payload))]
      positions := g.positions.insert id position })

/-- Add an edge at the end of both lists, unless it is there already. -/
def link (g : Graph α) (parent child : Nat) : Graph α :=
  if child ∈ g.childrenOf parent then g
  else
    (g.modifyAt parent fun n => { n with children := n.children ++ [child] }).modifyAt child
      fun n => { n with parents := n.parents ++ [parent] }

/-- The first answer that `f` gives along a list, with a state that passes
from one attempt to the next. -/
def firstAlong {σ β γ : Type} (f : β → σ → Option γ × σ) : List β → σ → Option γ × σ
  | [], s => (none, s)
  | b :: rest, s =>
    match f b s with
    | (some c, s) => (some c, s)
    | (none, s) => firstAlong f rest s

/-- Search below `current` for `target`, depth first, at most `depth` nodes
deep.  The state lists the nodes below which the target is known not to
be; they are not searched again. -/
def searchPath (g : Graph α) (target : Nat) : Nat → Nat → List Nat → Option (List Nat) × List Nat
  | 0, _, exhausted => (none, exhausted)
  | depth + 1, current, exhausted =>
    match g.node? current with
    | none => (none, exhausted)
    | some n =>
      if current = target then (some [current], exhausted)
      else
        let visit (child : Nat) (exhausted : List Nat) : Option (List Nat) × List Nat :=
          if child ∈ exhausted then (none, exhausted)
          else searchPath g target depth child exhausted
        match firstAlong visit n.children exhausted with
        | (some path, exhausted) => (some (current :: path), exhausted)
        | (none, exhausted) => (none, current :: exhausted)

/-- The first path from `start` to `target`, both included, where children
are tried in order.  A path that repeats no node is never longer than the
arena, so the bound on the depth loses none. -/
def findPath (g : Graph α) (start target : Nat) : Option (List Nat) :=
  (g.searchPath target g.slots.length start []).1

/-- The IDs of the nodes at some positions. -/
def idsAt (g : Graph α) (positions : List Nat) : List String :=
  positions.filterMap fun p => (g.node? p).map (·.id)

/-- Put the node `childId` below the node `parentId`.  A registered node is
shared and keeps its payload, another one is registered.  An unknown
parent and an edge that would close a cycle are refused. -/
def insert (g : Graph α) (parentId childId : String) (payload : α) : Except Error (Nat × Graph α) :=
  match g.position? parentId with
  | none => .error (.nodeNotFound parentId)
  | some parent =>
    match g.position? childId with
    | some child =>
      match g.findPath child parent with
      | some path => .error (.cyclic (parentId :: g.idsAt path))
      | none => .ok (child, g.link parent child)
    | none =>
      let (child, g) := g.register childId payload
      .ok (child, g.link parent child)

/-- Link two registered nodes.  Cycles are not looked for. -/
def addEdge (g : Graph α) (fromId toId : String) : Except Error (Graph α) :=
  match g.position? fromId with
  | none => .error (.nodeNotFound fromId)
  | some source =>
    match g.position? toId with
    | none => .error (.nodeNotFound toId)
    | some target => .ok (g.link source target)

/-- Take a node out of the lists of its neighbours. -/
def detach (g : Graph α) (n : Node α) : Graph α :=
  let g := n.parents.foldl
    (fun g p => g.modifyAt p fun m => { m with children := m.children.filter (· ≠ n.position) }) g
  n.children.foldl
    (fun g c => g.modifyAt c fun m => { m with parents := m.parents.filter (· ≠ n.position) }) g

/-- Remove a node with its edges.  Its children stay registered.  The root
cannot be removed. -/
def remove (g : Graph α) (id : String) : Except Error (Node α × Graph α) :=
  match g.position? id with
  | none => .error (.nodeNotFound id)
  | some position =>
    if position = root then .error (.config ("cannot remove root node '" ++ id ++ "'"))
    else
      match g.node? position with
      | none => .error (.nodeNotFound id)
      | some n =>
        let vacated : Graph α :=
          { slots := g.slots.set position none, positions := g.positions.erase id }
        .ok (n, vacated.detach n)

/-- Whether a position holds a node without parents. -/
def isOrphan (g : Graph α) (position : Nat) : Bool :=
  ((g.node? position).map (·.parents.isEmpty)).getD false

/-- Link a child to the root if it has no parent.  The list collects the
children that were linked. -/
def adopt (acc : List Nat × Graph α) (child : Nat) : List Nat × Graph α :=
  if acc.2.isOrphan child then (acc.1 ++ [child], acc.2.link root child) else acc

/-- Remove a node, then put each of its children that is left without a
parent below the root, so that it stays reachable.  The answer lists those
children. -/
def removeAndReparent (g : Graph α) (id : String) : Except Error (List Nat × Graph α) :=
  match g.remove id with
  | .error e => .error e
  | .ok (removed, g) => .ok (removed.children.foldl adopt ([], g))

end Graph

end Cascade
