import Cascade.Proofs.Graph.Hierarchy

/-!
# Taking nodes out of a hierarchy

A hierarchy stays one when a leaf is removed, and when any node but the root
is removed and the children that it leaves without a parent move below the
root.

* `Hierarchy.without_leaf` is the removal of a leaf.
* `Reattached` says that two graphs differ in edges from the root only.
  `foldl_adopt` is the induction over the children of a removed node.
* `Drops` is what both removals have in common: a node is gone, and the
  edges that do not begin at the root are those between the other nodes.
  `Remnant` is the same for any number of removals.
-/

namespace Cascade.Graph

open Relation

variable {α : Type}

/-- Fewer edges make no cycle. -/
theorem Without.acyclic {g g' : Graph α} {p : Nat} (h : g.Without p g') (hac : g.Acyclic) :
    g'.Acyclic := fun q hq =>
  hac q (TransGen.mono (fun _ _ hedge => (h.edge_iff.mp hedge).2.2) q q hq)

/-- A node that loses no parent keeps all of them. -/
theorem Hierarchy.without_leaf {g g' : Graph α} (hg : g.Hierarchy) {p : Nat}
    (hroot : p ≠ root) (hleaf : ∀ c, ¬ g.Edge p c) (h : g.Without p g') : g'.Hierarchy := by
  refine ⟨hg.consistent.without hroot h, h.acyclic hg.acyclic, fun {q} hq hocc => ?_⟩
  obtain ⟨hne, hocc⟩ := h.occupied_iff.mp hocc
  obtain ⟨a, ha⟩ := hg.parented hq hocc
  have hap : a ≠ p := fun he => hleaf q (he ▸ ha)
  exact ⟨a, h.edge_iff.mpr ⟨hap, hne, ha⟩⟩

/-! ## Nodes that move below the root -/

/-- `g'` has the nodes of `g` and all of its edges; the edges that it has
besides begin at the root. -/
structure Reattached (g g' : Graph α) : Prop where
  bare? : ∀ q, g'.bare? q = g.bare? q
  position? : ∀ id, g'.position? id = g.position? id
  edge : ∀ {a b}, g.Edge a b → g'.Edge a b
  edge_iff : ∀ {a b}, a ≠ root → (g'.Edge a b ↔ g.Edge a b)

namespace Reattached

variable {g g' g'' : Graph α}

theorem refl (g : Graph α) : g.Reattached g :=
  ⟨fun _ => rfl, fun _ => rfl, id, fun _ => Iff.rfl⟩

theorem trans (h : g.Reattached g') (h' : g'.Reattached g'') : g.Reattached g'' :=
  ⟨fun q => (h'.bare? q).trans (h.bare? q), fun id => (h'.position? id).trans (h.position? id),
    fun hab => h'.edge (h.edge hab), fun ha => (h'.edge_iff ha).trans (h.edge_iff ha)⟩

theorem occupied_iff (h : g.Reattached g') {q : Nat} : g'.Occupied q ↔ g.Occupied q := by
  rw [Occupied, h.bare?, Occupied]

theorem link_root {c : Nat} (hroot : g.Occupied root) : g.Reattached (g.link root c) := by
  refine ⟨fun q => bare?_link .., fun id => position?_link .., fun hab => ?_, fun ha => ?_⟩
  · exact (edge_link_iff hroot).mpr (Or.inl hab)
  · rw [edge_link_iff hroot]
    exact ⟨fun hor => hor.elim id fun hand => absurd hand.1 ha, Or.inl⟩

end Reattached

/-- A consistent graph without cycles, nothing of which is above the root. -/
structure Topped (g : Graph α) : Prop where
  consistent : g.Consistent
  acyclic : g.Acyclic
  not_edge_root : ∀ p, ¬ g.Edge p root

/-- Nothing but the root leads to the root. -/
theorem Topped.not_reaches_root {g : Graph α} (hg : g.Topped) {c : Nat} (hc : c ≠ root) :
    ¬ g.Reaches c root := by
  intro h
  rcases h.cases_tail with he | ⟨b, _, hb⟩
  · exact hc he.symm
  · exact hg.not_edge_root b hb

/-- A node can be put below the root. -/
theorem Topped.link_root {g : Graph α} (hg : g.Topped) {c : Nat} (hc : g.Occupied c)
    (hne : c ≠ root) : (g.link root c).Topped := by
  have hroot := hg.consistent.root_occupied
  refine ⟨hg.consistent.link hroot hc, hg.acyclic.link hroot (hg.not_reaches_root hne),
    fun p hp => ?_⟩
  rcases (edge_link_iff hroot).mp hp with hold | ⟨_, he⟩
  · exact hg.not_edge_root p hold
  · exact hne he.symm

/-- An occupied slot without parents is an orphan. -/
theorem isOrphan_iff {g : Graph α} {p : Nat} :
    g.isOrphan p = true ↔ g.Occupied p ∧ g.parentsOf p = [] := by
  rw [isOrphan, Occupied, bare?, parentsOf]
  cases g.node? p <;> simp

/-- One adoption: the child has a parent afterwards. -/
theorem Topped.adopt {g : Graph α} (hg : g.Topped) (acc : List Nat) {c : Nat} (hne : c ≠ root)
    (hc : g.Occupied c) :
    (Graph.adopt (acc, g) c).2.Topped ∧ g.Reattached (Graph.adopt (acc, g) c).2 ∧
      ∃ q, (Graph.adopt (acc, g) c).2.Edge q c := by
  have hroot := hg.consistent.root_occupied
  by_cases horphan : g.isOrphan c = true
  · simp only [Graph.adopt, horphan, if_true]
    exact ⟨hg.link_root hc hne, .link_root hroot,
      root, (edge_link_iff hroot).mpr (Or.inr ⟨rfl, rfl⟩)⟩
  · simp only [Graph.adopt, horphan, if_false, Bool.false_eq_true]
    have hparents : g.parentsOf c ≠ [] := fun h => horphan (isOrphan_iff.mpr ⟨hc, h⟩)
    obtain ⟨q, hq⟩ := List.exists_mem_of_ne_nil _ hparents
    exact ⟨hg, .refl g, q, hg.consistent.mirrored.mpr hq⟩

/-- After all children of a removed node were looked at, each of them has a
parent. -/
theorem Topped.foldl_adopt {g : Graph α} (hg : g.Topped) (children : List Nat) (acc : List Nat)
    (hchildren : ∀ c ∈ children, c ≠ root ∧ g.Occupied c) :
    (children.foldl Graph.adopt (acc, g)).2.Topped ∧
      g.Reattached (children.foldl Graph.adopt (acc, g)).2 ∧
      ∀ c ∈ children, ∃ q, (children.foldl Graph.adopt (acc, g)).2.Edge q c := by
  induction children generalizing g acc with
  | nil => exact ⟨hg, .refl g, by simp⟩
  | cons c rest ih =>
    obtain ⟨hne, hc⟩ := hchildren c (by simp)
    obtain ⟨htopped, hstep, q, hq⟩ := hg.adopt acc hne hc
    have hrest : ∀ c' ∈ rest, c' ≠ root ∧ (Graph.adopt (acc, g) c).2.Occupied c' := by
      intro c' hc'
      obtain ⟨hne', hocc'⟩ := hchildren c' (List.mem_cons_of_mem c hc')
      exact ⟨hne', hstep.occupied_iff.mpr hocc'⟩
    obtain ⟨htopped', hfold, hparents⟩ := ih htopped (Graph.adopt (acc, g) c).1 hrest
    rw [List.foldl_cons]
    refine ⟨htopped', hstep.trans hfold, fun c' hc' => ?_⟩
    rcases List.mem_cons.mp hc' with rfl | hc'
    · exact ⟨q, hfold.edge hq⟩
    · exact hparents c' hc'

/-! ## Removing and reattaching -/

/-- `g'` is what is left of `g` when the node at `p` is dropped, edges from
the root apart. -/
structure Drops (g : Graph α) (p : Nat) (g' : Graph α) : Prop where
  bare? : ∀ q, g'.bare? q = if q = p then none else g.bare? q
  edge_iff : ∀ {a b}, a ≠ root → (g'.Edge a b ↔ a ≠ p ∧ b ≠ p ∧ g.Edge a b)

theorem Drops.occupied_iff {g g' : Graph α} {p : Nat} (h : g.Drops p g') {q : Nat} :
    g'.Occupied q ↔ q ≠ p ∧ g.Occupied q := by
  rw [Occupied, h.bare?]
  by_cases hq : q = p <;> simp [hq, Occupied]

theorem Without.drops {g g' g'' : Graph α} {p : Nat} (h : g.Without p g')
    (h' : g'.Reattached g'') : g.Drops p g'' := by
  refine ⟨fun q => ?_, fun ha => ?_⟩
  · rw [h'.bare?, h.bare?]
  · rw [h'.edge_iff ha, h.edge_iff]

/-- A leaf other than the root can be removed from a hierarchy. -/
theorem Hierarchy.remove_leaf {g : Graph α} (hg : g.Hierarchy) {id : String} {p : Nat}
    (hp : g.position? id = some p) (hroot : p ≠ root) (hleaf : ∀ c, ¬ g.Edge p c) :
    ∃ n g', g.remove id = .ok (n, g') ∧ g'.Hierarchy ∧ g.Drops p g' := by
  obtain ⟨n, g', _, hremove, hwithout⟩ := hg.consistent.remove_eq_ok hp hroot
  exact ⟨n, g', hremove, hg.without_leaf hroot hleaf hwithout, hwithout.drops (.refl g')⟩

/-- Any node other than the root can be removed from a hierarchy when its
orphans move below the root.  A node that had another parent keeps it, and
a child of the removed node has been looked at. -/
theorem Hierarchy.removeAndReparent {g : Graph α} (hg : g.Hierarchy) {id : String} {p : Nat}
    (hp : g.position? id = some p) (hroot : p ≠ root) :
    ∃ orphans g', g.removeAndReparent id = .ok (orphans, g') ∧ g'.Hierarchy ∧ g.Drops p g' := by
  obtain ⟨n, g₁, hn, hremove, hwithout⟩ := hg.consistent.remove_eq_ok hp hroot
  have htopped : g₁.Topped :=
    ⟨hg.consistent.without hroot hwithout, hwithout.acyclic hg.acyclic,
      fun q hq => hg.not_edge_root q (hwithout.edge_iff.mp hq).2.2⟩
  have hbelow : ∀ c, c ∈ n.children ↔ g.Edge p c := fun c => (edge_iff_of_node? hn).symm
  have hchildren : ∀ c ∈ n.children, c ≠ root ∧ g₁.Occupied c := by
    intro c hc
    have hedge := (hbelow c).mp hc
    have hne : c ≠ p := fun he => hg.acyclic p (.single (he ▸ hedge))
    refine ⟨fun he => hg.not_edge_root p (he ▸ hedge), ?_⟩
    exact hwithout.occupied_iff.mpr ⟨hne, hg.consistent.occupied_target hedge⟩
  obtain ⟨hfold, hreattached, hparents⟩ := htopped.foldl_adopt n.children [] hchildren
  refine ⟨(n.children.foldl Graph.adopt ([], g₁)).1, _, ?_,
    ⟨hfold.consistent, hfold.acyclic, fun {q} hq hocc => ?_⟩, hwithout.drops hreattached⟩
  · rw [Graph.removeAndReparent, hremove]
  · obtain ⟨hqp, hocc⟩ := hwithout.occupied_iff.mp (hreattached.occupied_iff.mp hocc)
    obtain ⟨a, ha⟩ := hg.parented hq hocc
    by_cases hap : a = p
    · exact hparents q ((hbelow q).mpr (hap ▸ ha))
    · exact ⟨a, hreattached.edge (hwithout.edge_iff.mpr ⟨hap, hqp, ha⟩)⟩

/-! ## What is left -/

/-- `g` is what is left of `g₀` after some of its nodes were dropped, edges
from the root apart. -/
structure Remnant (g₀ g : Graph α) : Prop where
  bare? : ∀ {p b}, g.bare? p = some b → g₀.bare? p = some b
  edge_iff : ∀ {a b}, a ≠ root → g.Occupied a → g.Occupied b → (g.Edge a b ↔ g₀.Edge a b)

namespace Remnant

variable {g₀ g g' : Graph α}

theorem refl (g : Graph α) : g.Remnant g := ⟨id, fun _ _ _ => Iff.rfl⟩

theorem idAt? (h : g₀.Remnant g) {p : Nat} {id : String} (hp : g.idAt? p = some id) :
    g₀.idAt? p = some id := by
  rw [Graph.idAt?, Option.map_eq_some_iff] at hp
  obtain ⟨b, hb, hid⟩ := hp
  rw [Graph.idAt?, h.bare? hb, Option.map_some, hid]

/-- A node that is left has the ID that it had at the beginning. -/
theorem idAt?_of_occupied (h : g₀.Remnant g) {p : Nat} {id : String} (hp : g.Occupied p)
    (hid : g₀.idAt? p = some id) : g.idAt? p = some id := by
  obtain ⟨b, hb⟩ := Option.isSome_iff_exists.mp hp
  rw [Graph.idAt?, h.bare? hb] at hid
  rw [Graph.idAt?, hb]
  exact hid

theorem drops (h : g₀.Remnant g) {p : Nat} (hdrops : g.Drops p g') : g₀.Remnant g' := by
  refine ⟨fun {q b} hb => ?_, fun {a b} ha hoa hob => ?_⟩
  · rw [hdrops.bare?] at hb
    split at hb
    · cases hb
    · exact h.bare? hb
  · obtain ⟨hap, hoa⟩ := hdrops.occupied_iff.mp hoa
    obtain ⟨hbp, hob⟩ := hdrops.occupied_iff.mp hob
    rw [hdrops.edge_iff ha, h.edge_iff ha hoa hob]
    exact ⟨fun hand => hand.2.2, fun hedge => ⟨hap, hbp, hedge⟩⟩

end Remnant

end Cascade.Graph
