import Cascade.Proofs.Graph.Operations
import Cascade.Proofs.Graph.Tour
import Cascade.Proofs.Sequence

/-!
# Removing leaf after leaf

`prune` removes the first leaf of a graph until the root alone is left.  In a graph that has
grown by insertions this goes from the bottom up: a node becomes a leaf when all of its
children have been removed.

* One round.  As long as a hierarchy has a node besides the root, its first leaf is not the
  root (`Hierarchy.exists_nextLeaf`), and a round of pruning takes it out
  (`Hierarchy.pruneLeaves_succ`).
* Several rounds.  `Pruned.Sound` is what holds of the order and of the graph that is left
  after any number of rounds; `Hierarchy.pruneLeaves_eq` is the induction on this number.
* `prune_exact` is about all of them.
-/

namespace Cascade.Graph

variable {α : Type} {g g' : Graph α}

/-! ## One round -/

/-- As long as there is a node besides the root, there is a first leaf, and it is not the
root. -/
theorem Hierarchy.exists_nextLeaf (hg : g.Hierarchy) (hne : g.isEmpty = false) :
    ∃ p n, g.nextLeaf root = some p ∧ p ≠ root ∧ g.node? p = some n ∧ n.children = [] := by
  have hs := g.searches_preOrder Node.isLeaf
  cases hfound : g.nextLeaf root with
  | none =>
    -- the search would have missed the leaf that a tour begins with
    obtain ⟨l, _, _, hl, hleaf⟩ := hg.exists_tour_eq_cons g.slots.length root
      hg.consistent.root_occupied (g.weight_le root)
    obtain ⟨n, hn⟩ := hl.exists_node?
    have hnot := hs.none_lacks_root hg hfound hn
    rw [childrenOf_of_node? hn] at hleaf
    rw [Node.isLeaf, hleaf] at hnot
    cases hnot
  | some p =>
    obtain ⟨n, hn, hleaf⟩ := hs.some_has _ _ hfound
    have hchildren : n.children = [] := List.isEmpty_iff.mp hleaf
    refine ⟨p, n, rfl, ?_, hn, hchildren⟩
    rintro rfl
    have hids : g.ids = [] := by
      apply List.eq_nil_iff_forall_not_mem.mpr
      intro id hid
      obtain ⟨q, hq, hat⟩ := hg.consistent.mem_ids.mp hid
      have hchildless : g.childrenOf root = [] := (childrenOf_of_node? hn).trans hchildren
      exact hq (hg.eq_root_of_childless hchildless (occupied_of_idAt? hat))
    rw [hg.consistent.isEmpty_iff.mpr hids] at hne
    cases hne

/-- The IDs of a graph are those that are left when a node is taken out, and that of the
node. -/
theorem Without.perm_ids {p : Nat} {n : Node α} (h : g.Without p g') (hg : g.Consistent)
    (hroot : p ≠ root) (hn : g.node? p = some n) : g.ids.Perm (n.id :: g'.ids) := by
  have hg' : g'.Consistent := hg.without hroot h
  have hid : g.idAt? p = some n.id := idAt?_of_node? hn
  have hgone : n.id ∉ g'.ids := by
    intro hmem
    obtain ⟨q, _, hq⟩ := hg'.mem_ids.mp hmem
    rw [h.idAt?] at hq
    split at hq
    · cases hq
    · rename_i hqp
      exact hqp (hg.position_unique hq hid)
  refine (List.perm_ext_iff_of_nodup hg.nodup_ids
    (List.nodup_cons.mpr ⟨hgone, hg'.nodup_ids⟩)).mpr fun id => ?_
  rw [List.mem_cons, hg.mem_ids, hg'.mem_ids]
  constructor
  · rintro ⟨q, hq, hat⟩
    by_cases hqp : q = p
    · subst hqp
      exact Or.inl (Option.some.inj (hat.symm.trans hid))
    · exact Or.inr ⟨q, hq, by rw [h.idAt?, if_neg hqp, hat]⟩
  · rintro (rfl | ⟨q, hq, hat⟩)
    · exact ⟨p, hroot, hid⟩
    · rw [h.idAt?] at hat
      split at hat
      · cases hat
      · exact ⟨q, hq, hat⟩

/-- One round of pruning takes the first leaf out. -/
theorem Hierarchy.pruneLeaves_succ (hg : g.Hierarchy) (hne : g.isEmpty = false) :
    ∃ p n g', g.nextLeaf root = some p ∧ p ≠ root ∧ g.node? p = some n ∧ n.children = [] ∧
      g.remove n.id = .ok (n, g') ∧ g.Without p g' ∧
      ∀ steps order, g.pruneLeaves (steps + 1) order = g'.pruneLeaves steps (order ++ [n.id]) := by
  obtain ⟨p, n, hfound, hroot, hn, hchildren⟩ := hg.exists_nextLeaf hne
  have hp : g.position? n.id = some p := hg.consistent.registered.mpr (idAt?_of_node? hn)
  obtain ⟨n', g', hn', hremove, hwithout⟩ := hg.consistent.remove_eq_ok hp hroot
  cases hn.symm.trans hn'
  refine ⟨p, n, g', hfound, hroot, hn, hchildren, hremove, hwithout, fun steps order => ?_⟩
  rw [pruneLeaves, hne, hfound, Option.bind_some, hn]
  simp only [Bool.false_eq_true, if_false, hremove]

/-! ## Several rounds -/

/-- Nothing is pruned when the root alone is left. -/
theorem pruneLeaves_of_isEmpty (h : g.isEmpty = true) (steps : Nat) (order : List String) :
    g.pruneLeaves steps order = ⟨order, g, none⟩ := by
  cases steps with
  | zero => rfl
  | succ steps => rw [pruneLeaves, if_pos h]

/-- More rounds go on where some ended, unless these ended with an error. -/
theorem pruneLeaves_add (steps more : Nat) (order : List String) (g : Graph α) :
    g.pruneLeaves (steps + more) order =
      match g.pruneLeaves steps order with
      | ⟨order', g', none⟩ => g'.pruneLeaves more order'
      | ⟨order', g', some e⟩ => ⟨order', g', some e⟩ := by
  induction steps generalizing order g with
  | zero => rw [Nat.zero_add]; rfl
  | succ steps ih =>
    rw [Nat.succ_add, pruneLeaves, pruneLeaves]
    by_cases hempty : g.isEmpty = true
    · rw [if_pos hempty, if_pos hempty]
      exact (pruneLeaves_of_isEmpty hempty more order).symm
    · rw [if_neg hempty, if_neg hempty]
      cases hleaf : (g.nextLeaf root).bind g.node? with
      | none =>
        -- without a leaf every further round ends at once
        cases more with
        | zero => rfl
        | succ more =>
          dsimp only
          rw [pruneLeaves, if_neg hempty, hleaf]
      | some leaf =>
        dsimp only
        cases hremove : g.remove leaf.id with
        | error e => rfl
        | ok left => exact ih _ _

/-- What holds of the IDs that were removed from a graph, in their order, and of the graph
that is left. -/
structure Pruned.Sound (g₀ : Graph α) (order : List String) (g : Graph α) : Prop where
  hierarchy : g.Hierarchy
  /-- Every ID was removed once or is left. -/
  perm : g₀.ids.Perm (order ++ g.ids)
  /-- A child of a node that is left has been removed or is still its child. -/
  child {id child : String} : id ∈ g.ids → g₀.HasChild id child →
    child ∈ order ∨ g.HasChild id child
  /-- The children of a node were removed before the node. -/
  below {before after : List String} {id child : String} : order = before ++ id :: after →
    g₀.HasChild id child → child ∈ before

namespace Pruned.Sound

variable {g₀ : Graph α} {order : List String}

theorem start (hg : g.Hierarchy) : Pruned.Sound g [] g where
  hierarchy := hg
  perm := List.Perm.refl _
  child _ hchild := Or.inr hchild
  below h := by simp at h

/-- When a leaf is taken out, all children that it had at the beginning have been removed
before. -/
theorem leaf (h : Sound g₀ order g) {p : Nat} {n : Node α} (hroot : p ≠ root)
    (hn : g.node? p = some n) (hleaf : n.children = []) (hwithout : g.Without p g') :
    Sound g₀ (order ++ [n.id]) g' := by
  have hcons := h.hierarchy.consistent
  have hperm := hwithout.perm_ids hcons hroot hn
  have hat : g.idAt? p = some n.id := idAt?_of_node? hn
  have hchildless : g.childrenOf p = [] := (childrenOf_of_node? hn).trans hleaf
  have hnot : ∀ c, ¬ g.Edge p c := by
    intro c hc
    rw [Edge, hchildless] at hc
    cases hc
  refine ⟨h.hierarchy.without_leaf hroot hnot hwithout, ?_, ?_, ?_⟩
  · have hall := h.perm.trans (hperm.append_left order)
    rwa [List.append_cons] at hall
  · intro id child hid hchild
    have hid' : id ∈ g.ids := hperm.mem_iff.mpr (List.mem_cons_of_mem _ hid)
    rcases h.child hid' hchild with hgone | ⟨q, c, hq, hc, hedge⟩
    · exact Or.inl (List.mem_append_left _ hgone)
    · by_cases hcp : c = p
      · subst hcp
        have hsame : child = n.id := Option.some.inj ((hcons.registered.mp hc).symm.trans hat)
        exact Or.inl (List.mem_append_right _ (List.mem_singleton.mpr hsame))
      · have hqp : q ≠ p := fun he => hnot c (he ▸ hedge)
        refine Or.inr ⟨q, c, ?_, ?_, hwithout.edge_iff.mpr ⟨hqp, hcp, hedge⟩⟩
        · rw [hwithout.position?, hq, if_neg fun he => hqp (Option.some.inj he)]
        · rw [hwithout.position?, hc, if_neg fun he => hcp (Option.some.inj he)]
  · intro before after id child hsplit hchild
    rcases Sequence.concat_eq_append_cons hsplit with ⟨rfl, rfl, _⟩ | ⟨after', hold, _⟩
    · rcases h.child (hperm.mem_iff.mpr (List.mem_cons_self ..)) hchild with
        hgone | ⟨q, c, hq, _, hedge⟩
      · exact hgone
      · cases hq.symm.trans (hcons.registered.mpr hat)
        exact absurd hedge (hnot c)
    · exact h.below hold hchild

/-- What was removed and what is left makes up the size of the graph. -/
theorem size_eq (h : Sound g₀ order g) (hg₀ : g₀.Consistent) :
    g₀.size = order.length + g.size := by
  rw [hg₀.size_eq, h.hierarchy.consistent.size_eq, h.perm.length_eq, List.length_append]

end Pruned.Sound

/-- As many rounds as there are nodes besides the root take one leaf out each. -/
theorem Hierarchy.pruneLeaves_eq (hg : g.Hierarchy) {k : Nat} (hk : k ≤ g.size) :
    ∃ order g', g.pruneLeaves k [] = ⟨order, g', none⟩ ∧ order.length = k ∧
      Pruned.Sound g order g' := by
  induction k with
  | zero => exact ⟨[], g, rfl, rfl, .start hg⟩
  | succ k ih =>
    obtain ⟨order, g', hrun, hlength, hsound⟩ := ih (by omega)
    have hsize := hsound.size_eq hg.consistent
    have hne : g'.isEmpty = false := by
      rw [isEmpty, beq_eq_false_iff_ne]
      omega
    obtain ⟨p, n, g'', _, hroot, hn, hleaf, _, hwithout, hround⟩ :=
      hsound.hierarchy.pruneLeaves_succ hne
    refine ⟨order ++ [n.id], g'', ?_, ?_, hsound.leaf hroot hn hleaf hwithout⟩
    · rw [pruneLeaves_add, hrun]
      exact hround 0 order
    · rw [List.length_append, hlength]
      rfl

/-- There are more slots than registered nodes. -/
theorem Consistent.size_lt_length (hg : g.Consistent) : g.size < g.slots.length := by
  have hle : g.nodes.length ≤ g.slots.length := List.length_filterMap_le ..
  rw [hg.length_nodes] at hle
  omega

/-! ## All rounds -/

/-- In a graph that has grown by insertions, each of the first `g.size` rounds of pruning
removes one node without an error: as long as a node besides the root is left, there is a
first leaf, it is not the root, and the round takes it out.  After these rounds the root
alone is left, so that no further round does anything.  Every node but the root was removed
once, and the nodes that were its children in the graph at the beginning were removed before
it. -/
theorem prune_exact {rootId : String} (hg : g.Grown rootId) :
    (∀ k, k ≤ g.size → ∃ order g', g.pruneLeaves k [] = ⟨order, g', none⟩ ∧
      order.length = k ∧ g'.size = g.size - k ∧
      (k < g.size → g'.isEmpty = false ∧ ∃ p n g'', g'.nextLeaf root = some p ∧ p ≠ root ∧
        g'.node? p = some n ∧ n.children = [] ∧ g'.remove n.id = .ok (n, g'') ∧
        g.pruneLeaves (k + 1) [] = ⟨order ++ [n.id], g'', none⟩)) ∧
    (∀ k, g.size ≤ k → g.pruneLeaves k [] = g.prune) ∧
    g.prune.stopped = none ∧ g.prune.graph.isEmpty = true ∧
    g.prune.order.length = g.size ∧ g.prune.order.Nodup ∧ g.prune.order.Perm g.ids ∧
    ∀ before id after, g.prune.order = before ++ id :: after →
      ∀ child, g.HasChild id child → child ∈ before := by
  have hhier := hg.hierarchy
  have hcons := hhier.consistent
  obtain ⟨order, g', hrun, hlength, hsound⟩ := hhier.pruneLeaves_eq (Nat.le_refl g.size)
  have hsize := hsound.size_eq hcons
  have hempty : g'.isEmpty = true := by
    rw [isEmpty, beq_iff_eq]
    omega
  -- any number of rounds that is large enough ends like this
  have hmore : ∀ k, g.size ≤ k → g.pruneLeaves k [] = ⟨order, g', none⟩ := by
    intro k hk
    obtain ⟨more, rfl⟩ := Nat.exists_eq_add_of_le hk
    rw [pruneLeaves_add, hrun]
    exact pruneLeaves_of_isEmpty hempty more order
  have hprune : g.prune = ⟨order, g', none⟩ := hmore _ (Nat.le_of_lt hcons.size_lt_length)
  have hids : g'.ids = [] := hsound.hierarchy.consistent.isEmpty_iff.mp hempty
  have hperm : order.Perm g.ids := by
    have hall := hsound.perm.symm
    rwa [hids, List.append_nil] at hall
  rw [hprune]
  refine ⟨fun k hk => ?_, hmore, rfl, hempty, hlength, hperm.nodup_iff.mpr hcons.nodup_ids,
    hperm, fun before id after hsplit child => hsound.below hsplit⟩
  obtain ⟨order, g', hrun, hlength, hsound⟩ := hhier.pruneLeaves_eq hk
  have hsize := hsound.size_eq hcons
  refine ⟨order, g', hrun, hlength, by omega, fun hlt => ?_⟩
  have hne : g'.isEmpty = false := by
    rw [isEmpty, beq_eq_false_iff_ne]
    omega
  obtain ⟨p, n, g'', hfound, hroot, hn, hleaf, hremove, _, hround⟩ :=
    hsound.hierarchy.pruneLeaves_succ hne
  refine ⟨hne, p, n, g'', hfound, hroot, hn, hleaf, hremove, ?_⟩
  rw [pruneLeaves_add, hrun]
  exact hround 0 order

/-- The shared node of the diamond is removed before both of its parents. -/
theorem prune_diamond : diamond.Grown "root" ∧ diamond.prune.order = ["c", "a", "b"] ∧
    diamond.pruneLeaves 100 [] = diamond.prune ∧
    ∀ child, diamond.HasChild "a" child → child ∈ ["c"] := by
  obtain ⟨_, hmore, _, _, _, _, _, hbelow⟩ := prune_exact grown_diamond
  have horder : diamond.prune.order = ["c", "a", "b"] := by decide
  exact ⟨grown_diamond, horder, hmore 100 (by decide), hbelow ["c"] "a" ["b"] horder⟩

end Cascade.Graph
