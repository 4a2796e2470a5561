import Cascade.Program
import Cascade.Proofs.Dependency.Descent
import Cascade.Proofs.Graph.References

/-!
# Links between dependencies

What is below what is said twice: by the edges of a graph, and by the dependencies that
its nodes carry.  `Linked` says that both say the same, and that the dependencies below
the root are marked.  An insertion alone breaks this, and `Resolver.adopt` repairs it
(`Linked.adopt`).

Following the children of a dependency goes down the edges of the graph.  So it comes to
an end, and the size of the graph bounds how deep it goes (`Linked.treeLines_eq`).
-/

namespace Cascade

open Cascade.Graph DependencyGraph

/-! ## Links -/

/-- The children of a dependency are those of its node, and it is marked just if the root
declares it. -/
structure DependencyGraph.Linked (g : DependencyGraph) : Prop where
  sound : g.Sound
  root : g.position? rootId = some Graph.root
  unladen : g.payload? rootId = none
  children {id : String} {d : Dependency} : g.payload? id = some d → d.children = g.childIds id
  marked {id : String} {d : Dependency} :
    g.payload? id = some d → (d.isRoot = true ↔ id ∈ g.childIds rootId)

namespace DependencyGraph

variable {g g' : DependencyGraph} {parentId childId id : String} {d e : Dependency}

theorem linked_new : DependencyGraph.Linked (Graph.new rootId) where
  sound := Resolver.sound_new
  root := by decide
  unladen := payload?_new _ _
  children h := by cases (payload?_new _ _).symm.trans h
  marked h := by cases (payload?_new _ _).symm.trans h

/-- What a new dependency has to be like: it has no children yet, and is marked if it is
put below the root. -/
def Fresh (d : Dependency) (parentId : String) : Prop :=
  d.children = [] ∧ (d.isRoot = true ↔ parentId = rootId)

namespace Linked

theorem consistent (hg : g.Linked) : g.Consistent := hg.sound.hierarchy.consistent

theorem exists_payload (hg : g.Linked) (hne : id ≠ rootId) (hid : g.Knows id) :
    ∃ d, g.payload? id = some d :=
  hg.sound.exists_payload hg.root hne hid

/-- After an insertion, dependencies have the children that their nodes had before.  All
are marked if they should be, but for one that is put below the root. -/
theorem of_insert (hg : g.Linked) {position : Nat}
    (h : g.insert parentId childId d = .ok (position, g'))
    (hfresh : ¬ g.Knows childId → Fresh d parentId) (he : g'.payload? id = some e) :
    e.children = g.childIds id ∧
      ((id = childId → parentId ≠ rootId) → (e.isRoot = true ↔ id ∈ g.childIds rootId)) := by
  rw [hg.consistent.payload?_insert h] at he
  split at he
  · rename_i hnew
    obtain ⟨rfl, hnone⟩ := hnew
    cases he
    have hunknown : ¬ g.Knows id := by
      rintro ⟨p, hp⟩
      cases hnone.symm.trans hp
    obtain ⟨hchildren, hmarked⟩ := hfresh hunknown
    refine ⟨by rw [hchildren, childIds_of_not_knows hunknown], fun hne => ?_⟩
    rw [hmarked]
    constructor
    · exact fun heq => absurd heq (hne rfl)
    · intro hmem
      obtain ⟨_, c, _, hc, _⟩ := hg.consistent.mem_childIds.mp hmem
      exact absurd ⟨c, hc⟩ hunknown
  · exact ⟨hg.children he, fun _ => hg.marked he⟩

theorem ne_rootId_of_insert (hg : g.Linked) {position : Nat}
    (h : g.insert parentId childId d = .ok (position, g')) : childId ≠ rootId :=
  hg.sound.ne_rootId_of_insert hg.root h

/-- The three ways in which a dependency comes out of `Resolver.adopt`. -/
theorem payload?_adopt_cases (hg : g.Consistent)
    (he : (Resolver.adopt g parentId childId).payload? id = some e) :
    ∃ d, g.payload? id = some d ∧
      ((parentId = rootId ∧ id = childId ∧ e = { d with isRoot := true }) ∨
        (parentId ≠ rootId ∧ id = parentId ∧ e = d.addChild childId) ∨
        ((id = childId → parentId ≠ rootId) ∧ (id = parentId → parentId = rootId) ∧ e = d)) := by
  unfold Resolver.adopt at he
  split at he
  · rename_i hroot
    rw [hg.payload?_modifyPayload] at he
    split at he
    · rename_i hid
      obtain ⟨d, hd, rfl⟩ := Option.map_eq_some_iff.mp he
      exact ⟨d, hid ▸ hd, Or.inl ⟨hroot, hid, rfl⟩⟩
    · rename_i hid
      exact ⟨e, he, Or.inr (Or.inr ⟨fun heq => absurd heq hid, fun _ => hroot, rfl⟩)⟩
  · rename_i hroot
    rw [hg.payload?_modifyPayload] at he
    split at he
    · rename_i hid
      obtain ⟨d, hd, rfl⟩ := Option.map_eq_some_iff.mp he
      exact ⟨d, hid ▸ hd, Or.inr (Or.inl ⟨hroot, hid, rfl⟩)⟩
    · rename_i hid
      exact ⟨e, he, Or.inr (Or.inr ⟨fun _ => hroot, fun heq => absurd heq hid, rfl⟩)⟩

/-- What is put below a node is noted in what is carried. -/
theorem adopt (hg : g.Linked) (hd : Located ⟨childId, d⟩) {position : Nat}
    (h : g.insert parentId childId d = .ok (position, g'))
    (hfresh : ¬ g.Knows childId → Fresh d parentId) :
    (Resolver.adopt g' parentId childId).Linked := by
  have hcons := hg.consistent
  have hsound := Resolver.sound_insert hg.sound hd h
  have hchildIds (x : String) : (Resolver.adopt g' parentId childId).childIds x =
      if x = parentId then addOnce (g.childIds parentId) childId else g.childIds x := by
    rw [Resolver.childIds_adopt, hcons.childIds_insert h]
  have hunladen : g'.payload? rootId = none := by
    rw [hcons.payload?_insert h, if_neg, hg.unladen]
    exact fun hnew => hg.ne_rootId_of_insert h hnew.1.symm
  constructor
  · exact Resolver.sound_adopt hsound _ _
  · rw [Resolver.position?_adopt]
    exact (position?_of_insert h).2 _ _ hg.root
  · cases hpayload : (Resolver.adopt g' parentId childId).payload? rootId with
    | none => rfl
    | some e =>
      obtain ⟨d, hd, _⟩ := payload?_adopt_cases hsound.hierarchy.consistent hpayload
      cases hunladen.symm.trans hd
  · intro id e he
    obtain ⟨d, hd, hcases⟩ := payload?_adopt_cases hsound.hierarchy.consistent he
    obtain ⟨hchildren, _⟩ := hg.of_insert h hfresh hd
    have hne : id ≠ rootId := by
      rintro rfl
      cases hunladen.symm.trans hd
    rw [hchildIds]
    rcases hcases with ⟨hroot, rfl, rfl⟩ | ⟨hroot, rfl, rfl⟩ | ⟨_, hparent, rfl⟩
    · rw [if_neg (hroot ▸ hne)]
      exact hchildren
    · rw [if_pos rfl, ← hchildren, addOnce, Dependency.addChild]
      split <;> rfl
    · rw [if_neg fun heq => hne (heq.trans (hparent heq))]
      exact hchildren
  · intro id e he
    obtain ⟨d, hd, hcases⟩ := payload?_adopt_cases hsound.hierarchy.consistent he
    obtain ⟨_, hmarked⟩ := hg.of_insert h hfresh hd
    rw [hchildIds]
    rcases hcases with ⟨hroot, rfl, rfl⟩ | ⟨hroot, rfl, rfl⟩ | ⟨hchild, _, rfl⟩
    · rw [if_pos hroot.symm, mem_addOnce]
      exact iff_of_true rfl (Or.inr rfl)
    · have hsame : (d.addChild childId).isRoot = d.isRoot := by
        unfold Dependency.addChild
        split <;> rfl
      rw [if_neg (Ne.symm hroot), hsame]
      exact hmarked fun _ => hroot
    · rw [hmarked hchild]
      split
      · rename_i hroot
        rw [mem_addOnce, hroot, or_iff_left fun heq => hchild heq hroot.symm]
      · rfl

/-! ## Following children -/

/-- A child of a dependency is below its node. -/
theorem hasChild (hg : g.Linked) (hd : g.payload? id = some d) (hchild : childId ∈ d.children) :
    g.HasChild id childId := by
  rw [hg.children hd] at hchild
  exact hg.consistent.mem_childIds.mp hchild

/-- Depths that reach the leaves below a node show the same.  The weight of a node falls
from a dependency to its children. -/
theorem treeLines_congr (hg : g.Linked) {depth depth' : Nat} (level : Nat) {p : Nat}
    (hp : g.position? id = some p) (hd : g.payload? id = some d) (hdepth : g.weight p ≤ depth)
    (hdepth' : g.weight p ≤ depth') :
    Program.treeLines g depth level d = Program.treeLines g depth' level d := by
  have hpos := hg.consistent.weight_pos (occupied_of_idAt? (hg.consistent.registered.mp hp))
  induction depth generalizing depth' level id d p with
  | zero => omega
  | succ depth ih =>
    obtain ⟨depth', rfl⟩ := Nat.exists_eq_add_one_of_ne_zero (Nat.ne_zero_of_lt
      (Nat.lt_of_lt_of_le hpos hdepth'))
    rw [Program.treeLines, Program.treeLines]
    refine congrArg _ (List.flatMap_congr fun below hbelow => ?_)
    obtain ⟨childId, hchild, hpayload⟩ := List.mem_filterMap.mp hbelow
    obtain ⟨q, c, hq, hc, hedge⟩ := hg.hasChild hd hchild
    obtain rfl : q = p := Option.some.inj (hq.symm.trans hp)
    have hlt := hg.sound.hierarchy.acyclic.weight_lt hg.consistent hedge
    exact ih (level + 1) hc hpayload (by omega) (by omega)
      (hg.consistent.weight_pos (occupied_of_idAt? (hg.consistent.registered.mp hc)))

/-- As many levels as there are nodes show all that is below a dependency. -/
theorem treeLines_eq (hg : g.Linked) (hd : g.payload? id = some d) {depth : Nat}
    (hdepth : g.size ≤ depth) (level : Nat) :
    Program.treeLines g depth level d = Program.treeLines g (g.size + 1) level d := by
  obtain ⟨p, n, hp, hn, _, hpayload⟩ := hg.consistent.exists_of_payload? hd
  have hroot : p ≠ Graph.root := by
    rintro rfl
    obtain rfl := hg.consistent.id_unique hp hg.root
    cases hg.unladen.symm.trans hd
  have hweight := hg.sound.hierarchy.weight_le_size (occupied_of_node? hn) hroot
  exact hg.treeLines_congr level hp hd (hweight.trans hdepth) (hweight.trans (Nat.le_succ _))

end Linked

/-! ## Nodes -/

/-- A node carries a dependency with its ID, which is linked as the node is. -/
structure Mirrors (g : DependencyGraph) (n : Node Dependency) (d : Dependency) : Prop where
  carried : n.payload = some d
  id : d.id = n.id
  children : d.children = g.idsAt n.children
  marked : d.isRoot = true ↔ Graph.root ∈ n.parents

/-- Every node but the root mirrors the dependency that it carries. -/
theorem Linked.exists_mirrors (hg : g.Linked) {p : Nat} {n : Node Dependency}
    (hn : g.node? p = some n) (hroot : p ≠ Graph.root) : ∃ d, g.Mirrors n d := by
  have hp := hg.consistent.registered.mpr (idAt?_of_node? hn)
  have hne : n.id ≠ rootId := by
    intro heq
    rw [heq] at hp
    exact hroot (Option.some.inj (hp.symm.trans hg.root))
  obtain ⟨d, hd⟩ := hg.exists_payload hne ⟨p, hp⟩
  have hcarried := (payload?_of_node? hp hn).symm.trans hd
  refine ⟨d, hcarried, ?_, ?_, ?_⟩
  · have hcarries : g.Carries ⟨n.id, d⟩ := ⟨p, n.bare, bare?_of_node? hn, rfl, hcarried⟩
    exact (hg.sound.located _ hcarries).1
  · rw [hg.children hd, childIds_of_position? hp, childrenOf_of_node? hn, idsAt_eq_filterMap]
  · rw [hg.marked hd, hg.consistent.mem_childIds_of_position? hg.root hp, hg.consistent.mirrored,
      parentsOf_of_node? hn]

end DependencyGraph

end Cascade
