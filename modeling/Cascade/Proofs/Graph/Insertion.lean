import Cascade.Proofs.Graph.Paths

/-!
# What an insertion does

`insert` answers with a new graph or with an error.  This module says which of the two, and
what the new graph is.

* In place.  `insertInPlace` is the insertion as a program over a graph that it changes step
  by step; what it has changed before it fails would stay.  `insertInPlace_run` says that it
  is `insert`, so that a failure changes nothing.
* The outcome.  An insertion below a registered node is refused just if the node can be
  reached from the child (`Hierarchy.insert_refused_iff`).
* The new graph.  `Inserted` describes it view by view, and `Consistent.inserted` says that a
  successful insertion leaves just that.
-/

namespace Cascade.Graph

variable {α : Type}

/-! ## In place -/

/-- Put the node `childId` below the node `parentId` of the graph at hand. -/
def insertInPlace (parentId childId : String) (payload : α) :
    ExceptT Error (StateM (Graph α)) Nat := do
  let some parent := (← get).position? parentId | throw (.nodeNotFound parentId)
  let child ←
    match (← get).position? childId with
    | some child =>
      match (← get).findPath child parent with
      | some path => throw (.cyclic (parentId :: (← get).idsAt path))
      | none => pure child
    | none => modifyGet (·.register childId payload)
  modify (·.link parent child)
  return child

/-- The insertion in place answers as `insert`, leaves the graph that `insert` yields, and
leaves the graph alone when it fails. -/
theorem insertInPlace_run (g : Graph α) (parentId childId : String) (payload : α) :
    (insertInPlace parentId childId payload).run.run g =
      match g.insert parentId childId payload with
      | .ok (position, g') => (.ok position, g')
      | .error e => (.error e, g) := by
  have hget : ∀ f : Graph α → ExceptT Error (StateM (Graph α)) Nat,
      (get >>= f).run.run g = (f g).run.run g := fun _ => rfl
  rw [insertInPlace, hget, insert]
  cases hp : g.position? parentId with
  | none => rfl
  | some p =>
    dsimp only
    rw [hget]
    cases hc : g.position? childId with
    | none => rfl
    | some c =>
      dsimp only
      rw [hget]
      cases hpath : g.findPath c p <;> rfl

/-! ## The outcome -/

/-- An insertion fails below an unknown parent, and for this reason only. -/
theorem Consistent.insert_nodeNotFound_iff {g : Graph α} (hg : g.Consistent)
    {parentId childId id : String} {payload : α} :
    g.insert parentId childId payload = .error (.nodeNotFound id) ↔
      id = parentId ∧ g.position? parentId = none := by
  cases hp : g.position? parentId with
  | none =>
    have hinsert : g.insert parentId childId payload = .error (.nodeNotFound parentId) := by
      simp [insert, hp]
    simp [hinsert, eq_comm]
  | some p =>
    obtain ⟨position, g', hinsert⟩ | ⟨rest, hinsert, _⟩ := hg.insert_cases ⟨p, hp⟩ childId payload
    · simp [hinsert]
    · simp [hinsert]

/-- An insertion below a registered node is refused just if the node can be reached from the
child. -/
theorem Hierarchy.insert_refused_iff {g : Graph α} (hg : g.Hierarchy) {parentId childId : String}
    {payload : α} {p : Nat} (hp : g.position? parentId = some p) :
    (∃ cycle, g.insert parentId childId payload = .error (.cyclic cycle)) ↔
      ∃ c, g.position? childId = some c ∧ g.Reaches c p := by
  have hcons := hg.consistent
  constructor
  · rintro ⟨cycle, h⟩
    cases hc : g.position? childId with
    | none =>
      simp [Graph.insert, hp, hc] at h
    | some c =>
      refine ⟨c, rfl, ?_⟩
      by_contra hreach
      have hnone : g.findPath c p = none := by
        apply Option.eq_none_iff_forall_ne_some.mpr
        intro path hpath
        obtain ⟨hhead, hlast, hchain⟩ := findPath_some hpath
        have hocc := occupied_of_idAt? (hcons.registered.mp hc)
        exact hreach (IsPath.reaches ⟨hocc, hhead, hlast, hchain⟩)
      simp [Graph.insert, hp, hc, hnone] at h
  · rintro ⟨c, hc, hreach⟩
    obtain ⟨position, g', h⟩ | ⟨rest, h, _⟩ := hcons.insert_cases ⟨p, hp⟩ childId payload
    · -- a search that found nothing would have missed this way
      obtain ⟨p', hp', ⟨c', hc', hpath, _⟩ | ⟨hnew, _⟩⟩ := insert_eq_ok_cases h
      · rw [hp] at hp'
        rw [hc] at hc'
        cases hp'
        cases hc'
        have hocc := occupied_of_idAt? (hcons.registered.mp hc)
        exact absurd hreach (findPath_none hcons hg.acyclic hocc hpath)
      · rw [hc] at hnew
        cases hnew
    · exact ⟨_, h⟩

/-! ## The new graph -/

/-- What is left when `childId` was put below the node at `p`, with the child at
`position`. -/
structure Inserted (g : Graph α) (p : Nat) (childId : String) (payload : α) (position : Nat)
    (g' : Graph α) : Prop where
  /-- The child is found at the position, every other ID where it was. -/
  position? : ∀ id, g'.position? id = if id = childId then some position else g.position? id
  /-- A registered child stays where it is. -/
  kept : ∀ c, g.position? childId = some c → position = c
  /-- A new child gets a slot that was never used. -/
  fresh : g.position? childId = none → position = g.slots.length
  /-- Only a new child adds a node, and every other node keeps its ID and its payload. -/
  bare? : ∀ q, g'.bare? q =
    if g.position? childId = none ∧ q = position then some (.isolated position childId (some payload))
    else g.bare? q
  /-- A new edge comes last among the children of the parent. -/
  childrenOf : ∀ q, g'.childrenOf q =
    if q = p ∧ position ∉ g.childrenOf p then g.childrenOf q ++ [position] else g.childrenOf q
  /-- A new edge comes last among the parents of the child. -/
  parentsOf : ∀ q, g'.parentsOf q =
    if q = position ∧ position ∉ g.childrenOf p then g.parentsOf q ++ [p] else g.parentsOf q
  /-- Where the edge was there already, nothing changes. -/
  same : g.Edge p position → g' = g
  /-- There is one node more just if the child is new. -/
  size : g'.size = if g.position? childId = none then g.size + 1 else g.size

theorem Inserted.edge_iff {g g' : Graph α} {p position : Nat} {childId : String} {payload : α}
    (h : g.Inserted p childId payload position g') (a b : Nat) :
    g'.Edge a b ↔ g.Edge a b ∨ (a = p ∧ b = position) := by
  simp only [Edge, h.childrenOf]
  by_cases hnew : a = p ∧ position ∉ g.childrenOf p
  · simp [hnew]
  · rw [if_neg hnew]
    constructor
    · exact Or.inl
    · rintro (hold | ⟨rfl, rfl⟩)
      · exact hold
      · by_contra hmem
        exact hnew ⟨rfl, hmem⟩

@[simp]
theorem size_link (g : Graph α) (p c : Nat) : (g.link p c).size = g.size := by
  rw [link]
  split <;> rfl

theorem size_register {g : Graph α} (hg : g.Consistent) {id : String}
    (hid : g.position? id = none) (payload : α) :
    (g.register id payload).2.size = g.size + 1 := by
  obtain ⟨r, hr⟩ := hg.root_occupied.exists_node?
  have hroot := hg.registered.mpr (idAt?_of_node? hr)
  have hpos : g.positions.size ≠ 0 := by
    intro hempty
    have hnone : g.positions[r.id]? = none := by
      apply Std.TreeMap.getElem?_of_isEmpty
      rw [Std.TreeMap.isEmpty_eq_size_eq_zero, hempty]
      rfl
    rw [Graph.position?, hnone] at hroot
    cases hroot
  have hnew : ¬ g.positions.contains id = true := by
    rw [Graph.position?] at hid
    simp [Std.TreeMap.contains_eq_isSome_getElem?, hid]
  simp only [size, register, Std.TreeMap.size_insert, if_neg hnew]
  omega

/-- A successful insertion leaves what `Inserted` says. -/
theorem Consistent.inserted {g g' : Graph α} (hg : g.Consistent) {parentId childId : String}
    {payload : α} {position : Nat}
    (h : g.insert parentId childId payload = .ok (position, g')) :
    ∃ p, g.position? parentId = some p ∧ g.Inserted p childId payload position g' := by
  have hposition : ∀ id, g'.position? id =
      if id = childId then some position else g.position? id := by
    intro id
    rw [position?_insert h]
    simp only [eq_comm]
  obtain ⟨p, hp, ⟨c, hc, _, rfl, rfl⟩ | ⟨hc, rfl, rfl⟩⟩ := insert_eq_ok_cases h
  · have hpocc := occupied_of_idAt? (hg.registered.mp hp)
    have hcocc := occupied_of_idAt? (hg.registered.mp hc)
    refine ⟨p, hp, hposition, ?_, ?_, ?_, ?_, ?_, ?_, ?_⟩
    · intro c' hc'
      rw [hc] at hc'
      exact Option.some.inj hc'
    · simp [hc]
    · simp [hc]
    · intro q
      rw [childrenOf_link hpocc]
      simp only [eq_comm]
    · intro q
      rw [parentsOf_link hcocc]
      simp only [eq_comm]
    · intro hedge
      rw [Edge] at hedge
      rw [Graph.link, if_pos hedge]
    · simp [hc]
  · have hpocc := occupied_of_idAt? (hg.registered.mp hp)
    have hpocc' : (g.register childId payload).2.Occupied p := occupied_register.mpr (Or.inr hpocc)
    have hcocc : (g.register childId payload).2.Occupied g.slots.length :=
      occupied_register.mpr (Or.inl rfl)
    refine ⟨p, hp, hposition, ?_, ?_, ?_, ?_, ?_, ?_, ?_⟩
    · simp [hc]
    · simp
    · intro q
      simp only [bare?_link, bare?_register, hc, true_and]
      split
      · rename_i heq
        rw [heq]
      · rfl
    · intro q
      rw [childrenOf_link hpocc']
      simp only [childrenOf_register, eq_comm]
    · intro q
      rw [parentsOf_link hcocc]
      simp only [parentsOf_register, childrenOf_register, eq_comm]
    · intro hedge
      have hlt := (hg.occupied_target hedge).lt_length
      omega
    · rw [size_link, size_register hg hc, if_pos hc]

/-! ## Insertions below a root -/

/-- In a graph that has grown by insertions, an insertion fails with `nodeNotFound` just if
the parent is unknown; otherwise it fails with `cyclic` just if the parent can be reached
from a registered child, and the error then tells the parent and a walk back to it from the
child; there is no other failure, and none changes the graph.  A success adds the one edge at
its place, and the node if it is new, and answers where the child is.  Before and after, every
node can be reached from the root. -/
theorem insert_exact {rootId : String} {g : Graph α} (hg : g.Grown rootId)
    (parentId childId : String) (payload : α) :
    (g.insert parentId childId payload = .error (.nodeNotFound parentId) ↔
        g.position? parentId = none) ∧
      (∀ p, g.position? parentId = some p →
        ((∃ cycle, g.insert parentId childId payload = .error (.cyclic cycle)) ↔
          ∃ c, g.position? childId = some c ∧ g.Reaches c p)) ∧
      (∀ cycle, g.insert parentId childId payload = .error (.cyclic cycle) →
        ∃ rest, cycle = parentId :: childId :: rest ∧
          (childId :: rest).getLast? = some parentId ∧ (childId :: rest).IsChain g.HasChild) ∧
      (∀ e, g.insert parentId childId payload = .error e →
        (e = .nodeNotFound parentId ∨ ∃ cycle, e = .cyclic cycle) ∧
          (insertInPlace parentId childId payload).run.run g = (.error e, g)) ∧
      (∀ position g', g.insert parentId childId payload = .ok (position, g') →
        (insertInPlace parentId childId payload).run.run g = (.ok position, g') ∧
          ∃ p, g.position? parentId = some p ∧ g.Inserted p childId payload position g' ∧
            (∀ a b, g'.Edge a b ↔ g.Edge a b ∨ (a = p ∧ b = position)) ∧
            ∀ q, g'.Occupied q → g'.Reaches root q) ∧
      ∀ q, g.Occupied q → g.Reaches root q := by
  have hhier := hg.hierarchy
  have hcons := hhier.consistent
  refine ⟨?_, fun p hp => hhier.insert_refused_iff hp, ?_, ?_, ?_, fun q hq => hhier.reaches hq⟩
  · simp [hcons.insert_nodeNotFound_iff]
  · intro cycle h
    have hparent : g.Knows parentId := by
      cases hp : g.position? parentId with
      | none => simp [insert, hp] at h
      | some p => exact ⟨p, hp⟩
    obtain ⟨_, _, hok⟩ | ⟨rest, hrest, _, hlast, hchain⟩ :=
      hcons.insert_cases hparent childId payload
    · rw [hok] at h
      cases h
    · rw [hrest] at h
      cases h
      exact ⟨rest, rfl, hlast, hchain⟩
  · intro e h
    refine ⟨?_, by rw [insertInPlace_run, h]⟩
    cases hp : g.position? parentId with
    | none =>
      rw [(hcons.insert_nodeNotFound_iff).mpr ⟨rfl, hp⟩] at h
      cases h
      exact Or.inl rfl
    | some p =>
      obtain ⟨_, _, hok⟩ | ⟨rest, hrest, _⟩ := hcons.insert_cases ⟨p, hp⟩ childId payload
      · rw [hok] at h
        cases h
      · rw [hrest] at h
        cases h
        exact Or.inr ⟨_, rfl⟩
  · intro position g' h
    refine ⟨by rw [insertInPlace_run, h], ?_⟩
    obtain ⟨p, hp, hinserted⟩ := hcons.inserted h
    have hhier' := hhier.insert h
    exact ⟨p, hp, hinserted, hinserted.edge_iff, fun q hq => hhier'.reaches hq⟩

/-- In the diamond the root cannot be put below the node that it leads to, and the other two
nodes can be linked. -/
theorem insert_diamond :
    (∃ rest, diamond.insert "c" "root" () = .error (.cyclic ("c" :: "root" :: rest)) ∧
        ("root" :: rest).IsChain diamond.HasChild) ∧
      ∃ g', diamond.insert "b" "a" () = .ok (1, g') ∧ g'.size = diamond.size ∧
        g'.childrenOf 3 = [2, 1] := by
  have hrefused := insert_exact grown_diamond "c" "root" ()
  have haccepted := insert_exact grown_diamond "b" "a" ()
  obtain ⟨_, _, hcycle, _⟩ := hrefused
  obtain ⟨_, _, _, _, hinserted, _⟩ := haccepted
  refine ⟨?_, ?_⟩
  · have h : diamond.insert "c" "root" () = .error (.cyclic ["c", "root", "a", "c"]) := by rfl
    obtain ⟨rest, heq, _, hchain⟩ := hcycle _ h
    cases heq
    exact ⟨_, h, hchain⟩
  · have h : diamond.insert "b" "a" () = .ok (1, diamond.link 3 1) := by rfl
    obtain ⟨_, p, hp, hviews, _⟩ := hinserted _ _ h
    have hthree : p = 3 := by
      have h3 : diamond.position? "b" = some 3 := by rfl
      rw [h3] at hp
      exact (Option.some.inj hp).symm
    subst hthree
    have hsize := hviews.size
    have hchildren := hviews.childrenOf 3
    exact ⟨_, h, hsize, hchildren⟩

end Cascade.Graph
