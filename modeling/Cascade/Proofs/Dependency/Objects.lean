import Cascade.Dependency.Resolve
import Cascade.Proofs.Graph.References

/-!
# Dependencies as objects

The dependencies of a graph name their children by IDs.  Here they are objects, each of
which refers to its children themselves, and the nodes of a graph refer to the same
objects.  Both kinds of references are made side by side: an edge by `Graph.insert`, which
goes by positions, and a child by `Heap.addChild`, which goes by IDs.

* `Heap` is what is referred to, with one equation for each change of it.
* `resolveAllLinked` is `resolveAll` with objects.  Reading all references in what it
  drafts (`LinkedDraft.view`) yields a graph of dependencies.
-/

namespace Cascade

/-! ## Objects -/

/-- A dependency as an object.  Its children are those in `children`; `self` names none. -/
structure Object where
  self : Dependency
  children : List Nat

namespace Object

/-- The dependency that an object is, if the IDs of all objects are known. -/
def read (o : Object) (idOf? : Nat → Option String) : Dependency :=
  { o.self with children := o.children.filterMap idOf? }

/-- Note that the root declares an object. -/
def markRoot (o : Object) : Object := { o with self := { o.self with isRoot := true } }

/-- Add a child to an object, unless it has one with the same ID. -/
def addChild (o : Object) (idOf? : Nat → Option String) (child : Nat) : Object :=
  if o.children.any fun c => idOf? c == idOf? child then o
  else { o with children := o.children ++ [child] }

variable (o : Object) (idOf? : Nat → Option String)

theorem id_markRoot : o.markRoot.self.id = o.self.id := rfl

theorem read_markRoot : o.markRoot.read idOf? = { o.read idOf? with isRoot := true } := rfl

/-- Children with one ID are one child, to an object and to a dependency. -/
theorem read_addChild {child : Nat} {id : String} (hid : idOf? child = some id) :
    (o.addChild idOf? child).read idOf? = (o.read idOf?).addChild id := by
  have hmem : (o.children.any fun c => idOf? c == idOf? child) = true ↔
      id ∈ (o.read idOf?).children := by
    simp [read, List.mem_filterMap, hid]
  rw [addChild, Dependency.addChild]
  by_cases h : id ∈ (o.read idOf?).children
  · rw [if_pos (hmem.mpr h), if_pos h]
  · rw [if_neg (mt hmem.mp h), if_neg h]
    simp [read, List.filterMap_append, hid]

theorem id_addChild (child : Nat) : (o.addChild idOf? child).self.id = o.self.id := by
  unfold addChild
  split <;> rfl

end Object

/-- All objects, in the order in which they were made.  A reference to one is its place. -/
abbrev Heap := List Object

namespace Heap

/-- The ID of what is referred to. -/
def idOf? (h : Heap) (ref : Nat) : Option String := h[ref]?.map (·.self.id)

/-- The dependency that is referred to. -/
def read? (h : Heap) (ref : Nat) : Option Dependency := h[ref]?.map (·.read h.idOf?)

/-- Note that an object, or the root if there is none, declares another one. -/
def adopt (h : Heap) (parent : Option Nat) (child : Nat) : Heap :=
  match parent with
  | some parent => h.modify parent (·.addChild h.idOf? child)
  | none => h.modify child (·.markRoot)

variable (h : Heap)

theorem idOf?_modify (i : Nat) {f : Object → Object} (hid : ∀ o, (f o).self.id = o.self.id)
    (ref : Nat) : Heap.idOf? (h.modify i f) ref = h.idOf? ref := by
  rw [idOf?, idOf?, List.getElem?_modify]
  cases h[ref]? with
  | none => rfl
  | some o =>
    by_cases hi : i = ref
    · simp [hi, hid]
    · simp [hi]

/-- A change of an object that keeps its ID is a change of what is read there. -/
theorem read?_modify (i : Nat) {f : Object → Object} {f' : Dependency → Dependency}
    (hid : ∀ o, (f o).self.id = o.self.id)
    (hread : ∀ o, (f o).read h.idOf? = f' (o.read h.idOf?)) (ref : Nat) :
    Heap.read? (h.modify i f) ref = if ref = i then (h.read? ref).map f' else h.read? ref := by
  rw [read?, read?, funext (idOf?_modify h i hid), List.getElem?_modify]
  cases h[ref]? with
  | none => simp
  | some o =>
    by_cases hi : ref = i
    · simp [hi, hread]
    · simp [hi, Ne.symm hi]

@[simp]
theorem idOf?_adopt (parent : Option Nat) (child ref : Nat) :
    (h.adopt parent child).idOf? ref = h.idOf? ref := by
  cases parent with
  | none => exact idOf?_modify h child Object.id_markRoot ref
  | some parent => exact idOf?_modify h parent (fun o => o.id_addChild h.idOf? child) ref

theorem read?_adopt_none (child ref : Nat) : (h.adopt none child).read? ref =
    if ref = child then (h.read? ref).map fun d => { d with isRoot := true }
    else h.read? ref :=
  read?_modify h child Object.id_markRoot (fun o => o.read_markRoot h.idOf?) ref

theorem read?_adopt_some {child : Nat} {id : String} (hid : h.idOf? child = some id)
    (parent ref : Nat) : (h.adopt (some parent) child).read? ref =
      if ref = parent then (h.read? ref).map (·.addChild id) else h.read? ref :=
  read?_modify h parent (fun o => o.id_addChild h.idOf? child)
    (fun o => o.read_addChild h.idOf? hid) ref

/-- A child of an object was its child before, or was just added to it. -/
theorem mem_children_adopt {parent : Option Nat} {child ref c : Nat} {o : Object}
    (ho : (h.adopt parent child)[ref]? = some o) (hc : c ∈ o.children) :
    (∃ o', h[ref]? = some o' ∧ c ∈ o'.children) ∨ (parent = some ref ∧ c = child) := by
  cases parent with
  | none =>
    rw [adopt, List.getElem?_modify] at ho
    obtain ⟨o', ho', rfl⟩ := Option.map_eq_some_iff.mp ho
    refine Or.inl ⟨o', ho', ?_⟩
    split at hc <;> exact hc
  | some parent =>
    rw [adopt, List.getElem?_modify] at ho
    obtain ⟨o', ho', rfl⟩ := Option.map_eq_some_iff.mp ho
    split at hc
    · rename_i hparent
      rw [Object.addChild] at hc
      split at hc
      · exact Or.inl ⟨o', ho', hc⟩
      · rcases List.mem_append.mp hc with hold | hnew
        · exact Or.inl ⟨o', ho', hold⟩
        · exact Or.inr ⟨congrArg some hparent, List.mem_singleton.mp hnew⟩
    · exact Or.inl ⟨o', ho', hc⟩

theorem idOf?_append {ref : Nat} {id : String} (hid : h.idOf? ref = some id) (o : Object) :
    Heap.idOf? (h ++ [o]) ref = some id := by
  obtain ⟨o', ho', _⟩ := Option.map_eq_some_iff.mp hid
  obtain ⟨hlt, _⟩ := List.getElem?_eq_some_iff.mp ho'
  rw [idOf?, List.getElem?_append_left hlt]
  exact hid

/-- A new object changes no other one, as long as these refer to what is there. -/
theorem read?_append {ref : Nat} {o : Object} (ho : h[ref]? = some o)
    (hchildren : ∀ c ∈ o.children, ∃ id, h.idOf? c = some id) (o' : Object) :
    Heap.read? (h ++ [o']) ref = h.read? ref := by
  obtain ⟨hlt, _⟩ := List.getElem?_eq_some_iff.mp ho
  have hids : o.children.filterMap (Heap.idOf? (h ++ [o'])) = o.children.filterMap h.idOf? := by
    refine List.filterMap_congr fun c hc => ?_
    obtain ⟨id, hid⟩ := hchildren c hc
    rw [idOf?_append h hid, hid]
  rw [read?, read?, List.getElem?_append_left hlt, ho, Option.map_some, Option.map_some,
    Object.read, Object.read, hids]

/-- A new object is read as what it was made of. -/
theorem read?_length {d : Dependency} (hd : d.children = []) :
    Heap.read? (h ++ [⟨d, []⟩]) h.length = some d := by
  obtain ⟨_, _, _, _, _, _, _, children⟩ := d
  obtain rfl : children = [] := hd
  simp [read?, Object.read]

end Heap

/-! ## Resolving -/

/-- A draft whose nodes refer to objects. -/
structure LinkedDraft where
  graph : Graph Nat
  heap : Heap
  log : List Log.Entry

namespace LinkedDraft

/-- The draft of a project without dependencies. -/
def empty : LinkedDraft := ⟨Graph.new DependencyGraph.rootId, [], []⟩

/-- The graph of the dependencies that the nodes refer to. -/
def view (s : LinkedDraft) : DependencyGraph := s.graph.bindPayload s.heap.read?

/-- The draft with all references read. -/
def draft (s : LinkedDraft) : Resolver.Draft := ⟨s.view, s.log⟩

/-- Make an object without children. -/
def allocate (s : LinkedDraft) (d : Dependency) : LinkedDraft :=
  { s with heap := s.heap ++ [⟨d, []⟩] }

/-- Take over a graph in which a node was put below another one. -/
def place (s : LinkedDraft) (graph : Graph Nat) (parent : Option Nat) (child : Nat) :
    LinkedDraft :=
  { s with graph, heap := s.heap.adopt parent child }

end LinkedDraft

namespace Resolver

variable {φ : Type} [FileSystem φ]

/-- A change of such a draft that may fail. -/
abbrev Linking (α : Type) := ExceptT Error (StateM LinkedDraft) α

/-- The object for the directory of a declaration, and its configuration if the object
was made for it. -/
def objectAt (files : φ) (s : LinkedDraft) (isRoot : Bool) (name : String) (d : Declaration)
    (path : Path) : Except Error (Nat × Option Config × LinkedDraft) :=
  match s.graph.payload? path.text with
  | some ref => .ok (ref, none, s)
  | none => do
    let config ← Config.loadDirectory files path
    let dependency ← Dependency.new path.text name path config d isRoot
    return (s.heap.length, some config, s.allocate dependency)

/-- Resolve one declaration, and then those of its object if that is new. -/
def declareLinked (r : Resolver) (files : φ)
    (below : String → Option Nat → Path → Config → Linking Unit) (parentId : String)
    (parent : Option Nat) (directory : Path) (declared : String × Declaration) :
    Linking Unit := do
  let path ← locate files directory declared.1 declared.2
  let (ref, fresh, s) ← objectAt files (← get) parent.isNone declared.1 declared.2 path
  set s
  match s.graph.insert parentId path.text ref with
  | .error (.cyclic cycle) =>
    if r.allowCyclic then
      modify fun s => { s with log := s.log ++ [skippedEntry declared.1 cycle] }
    else throw (.cyclic cycle)
  | .error e => throw e
  | .ok (_, graph) =>
    modify (·.place graph parent ref)
    match fresh with
    | some config => below path.text (some ref) path config
    | none => pure ()

/-- Resolve the declarations of the configuration of an object, or of the root if there is
none, and then those of each new object. -/
def resolveLinked (r : Resolver) (files : φ) :
    Nat → String → Option Nat → Path → Config → Linking Unit
  | 0, _, _, _, _ => throw tooDeep
  | depth + 1, parentId, parent, directory, config =>
    config.dependencies.toList.forM
      (r.declareLinked files (resolveLinked r files depth) parentId parent directory)

/-- Resolve all dependencies of the project. -/
def resolveAllLinked (r : Resolver) (files : φ) : Linking Unit := do
  let root ← (FileSystem.canonical files r.root).mapError Error.other
  r.resolveLinked files (levels files) DependencyGraph.rootId none root r.config

end Resolver

end Cascade
