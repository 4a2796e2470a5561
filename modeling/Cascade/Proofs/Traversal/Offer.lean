import Cascade.Proofs.Graph.Removal
import Cascade.Proofs.Graph.Search
import Cascade.Traversal.Basic

/-!
# What a traversal offers and what a release leaves

`Graph.Precedes` is the order in which a direction wants the nodes:
children before parents going forward, parents other than the root before
children going in reverse.  A node is `Free` when nothing that precedes it
is left.

There are two groups.

* The offer.  `offer_cases` says once what a request can be answered, and
  `candidateClaim?_some` and `candidateClaim?_none` say that the node that
  is handed out is free and was not handed out before, and that there is
  no such node when none is handed out.
* The release.  `release_eq` says what a release never touches, and
  `release_of_kept` and `release_of_pruned` what it does to the graph.
-/

namespace Cascade

variable {α : Type}

namespace Graph

/-- The node at `x` has to be finished before the node at `p` is handed
out. -/
def Precedes (g : Graph α) (direction : Direction) (x p : Nat) : Prop :=
  match direction with
  | .forward => g.Edge p x
  | .reverse => x ≠ root ∧ g.Edge x p

/-- Nothing that precedes a node is left. -/
def Free (g : Graph α) (direction : Direction) (p : Nat) : Prop :=
  ∀ x, ¬ g.Precedes direction x p

/-- What precedes a node is a node, and not the root. -/
theorem Hierarchy.precedes_occupied {g : Graph α} (hg : g.Hierarchy) {direction : Direction}
    {x p : Nat} (h : g.Precedes direction x p) : x ≠ root ∧ g.Occupied x := by
  cases direction with
  | forward =>
    exact ⟨fun he => hg.not_edge_root p (he ▸ h), hg.consistent.occupied_target h⟩
  | reverse => exact ⟨h.1, occupied_of_mem_childrenOf h.2⟩

end Graph

namespace Traversal

/-! ## The offer -/

/-- A node is eligible when it is not the root, was not handed out before
and is free. -/
theorem eligible_iff {t : Traversal α} (hg : t.graph.Consistent) {p : Nat} {n : Node α}
    (hn : t.graph.node? p = some n) :
    t.eligible n = true ↔
      p ≠ Graph.root ∧ n.id ∉ t.visited ∧ t.graph.Free t.direction p := by
  have hchildren := Graph.childrenOf_of_node? hn
  have hparents := Graph.parentsOf_of_node? hn
  simp only [eligible, hg.node_position hn, Bool.and_eq_true, decide_eq_true_eq,
    Bool.not_eq_true', List.contains_eq_mem, decide_eq_false_iff_not, and_assoc]
  refine and_congr_right fun _ => and_congr_right fun _ => ?_
  cases hd : t.direction with
  | forward =>
    simp only [Graph.Free, Graph.Precedes, Graph.Edge, hchildren, Node.isLeaf,
      List.isEmpty_iff, List.eq_nil_iff_forall_not_mem]
  | reverse =>
    simp only [Graph.Free, Graph.Precedes, Graph.Edge, hg.mirrored, hparents, List.all_eq_true,
      decide_eq_true_eq, not_and]
    exact forall_congr' fun x => ⟨fun h hne hmem => hne (h hmem), fun h hmem =>
      Classical.byContradiction fun hne => h hne hmem⟩

/-- What the search for a candidate finds is an eligible node. -/
theorem candidate?_some {t : Traversal α} {p : Nat} (h : t.candidate? = some p) :
    ∃ n, t.graph.node? p = some n ∧ t.eligible n = true := by
  rw [candidate?] at h
  split at h
  · exact (t.graph.searches_postOrder t.eligible).some_has _ _ h
  · exact (t.graph.searches_preOrder t.eligible).some_has _ _ h

/-- When the search for a candidate finds nothing, no node is eligible. -/
theorem candidate?_none {t : Traversal α} (hg : t.graph.Hierarchy) (h : t.candidate? = none)
    {p : Nat} {n : Node α} (hn : t.graph.node? p = some n) : t.eligible n = false := by
  rw [candidate?] at h
  split at h
  · exact (t.graph.searches_postOrder t.eligible).none_lacks_root hg h hn
  · exact (t.graph.searches_preOrder t.eligible).none_lacks_root hg h hn

theorem candidateClaim?_some {t : Traversal α} {c : Claim α} (h : t.candidateClaim? = some c) :
    ∃ p n, t.graph.node? p = some n ∧ t.eligible n = true ∧ n.id = c.id ∧
      n.payload = some c.payload := by
  simp only [candidateClaim?, Option.bind_eq_bind, Option.bind_eq_some_iff] at h
  obtain ⟨p, hp, n, hn, payload, hpayload, hc⟩ := h
  obtain ⟨n', hn', heligible⟩ := candidate?_some hp
  rw [hn] at hn'
  cases hn'
  cases hc
  exact ⟨p, n, hn, heligible, rfl, hpayload⟩

/-- When nothing is handed out, no node is eligible: a candidate would carry
a payload. -/
theorem candidateClaim?_none {t : Traversal α} (hg : t.graph.Hierarchy) (hl : t.graph.Laden)
    (h : t.candidateClaim? = none) {p : Nat} {n : Node α} (hn : t.graph.node? p = some n) :
    t.eligible n = false := by
  cases hc : t.candidate? with
  | none => exact candidate?_none hg hc hn
  | some q =>
    obtain ⟨m, hm, heligible⟩ := candidate?_some hc
    have hroot := ((eligible_iff hg.consistent hm).mp heligible).1
    obtain ⟨payload, hpayload⟩ := hl.exists_payload hroot hm
    simp [candidateClaim?, hc, hm, hpayload] at h

/-- The four answers to a request for work. -/
theorem offer_cases (t : Traversal α) :
    (t.aborted = true ∧ t.offer = (.exhausted, t)) ∨
    (t.aborted = false ∧ ∃ c, t.candidateClaim? = some c ∧
      t.offer = (.claim c, { t with visited := c.id :: t.visited, held := t.held + 1 })) ∨
    (t.aborted = false ∧ t.candidateClaim? = none ∧ t.held = 0 ∧ t.offer = (.exhausted, t)) ∨
    (t.aborted = false ∧ t.candidateClaim? = none ∧ t.held ≠ 0 ∧ t.offer = (.pending, t)) := by
  simp only [offer]
  cases ha : t.aborted with
  | true => simp
  | false =>
    cases hc : t.candidateClaim? with
    | some c => simp
    | none => by_cases hh : t.held = 0 <;> simp [hh]

/-! ## The release -/

/-- Whether a release takes the node out of the graph. -/
def prunes (direction : Direction) (succeeded : Bool) : Bool :=
  succeeded || direction == .reverse

/-- A release gives back a claim; beyond that it changes the graph at
most. -/
theorem release_eq (t : Traversal α) (id : String) (succeeded : Bool) :
    (t.release id succeeded).2 =
      { t with held := t.held - 1, graph := (t.release id succeeded).2.graph } := by
  simp only [release]
  split
  · split <;> rfl
  · rfl

theorem release_of_kept {t : Traversal α} {id : String} {succeeded : Bool}
    (h : prunes t.direction succeeded = false) :
    (t.release id succeeded).2.graph = t.graph := by
  have hcond : (succeeded || t.direction == .reverse) = false := h
  simp only [release, hcond, Bool.false_eq_true, if_false]

theorem release_of_pruned {t : Traversal α} {id : String} {succeeded : Bool} {g : Graph α}
    (h : prunes t.direction succeeded = true) (hprune : t.prune id = .ok g) :
    (t.release id succeeded).1 = none ∧ (t.release id succeeded).2.graph = g := by
  have hcond : (succeeded || t.direction == .reverse) = true := h
  have hprune' : prune { t with held := t.held - 1 } id = .ok g := hprune
  simp [release, hcond, hprune']

/-- A node other than the root can be taken out of the graph, going forward
if it is free. -/
theorem prune_eq_ok {t : Traversal α} (hg : t.graph.Hierarchy) {id : String} {p : Nat}
    (hp : t.graph.position? id = some p) (hroot : p ≠ Graph.root)
    (hfree : t.direction = .forward → t.graph.Free .forward p) :
    ∃ g, t.prune id = .ok g ∧ g.Hierarchy ∧ t.graph.Drops p g := by
  cases hd : t.direction with
  | forward =>
    obtain ⟨n, g, hremove, hg', hdrops⟩ := hg.remove_leaf hp hroot (hfree hd)
    exact ⟨g, by simp [prune, hd, hremove, Except.map], hg', hdrops⟩
  | reverse =>
    obtain ⟨orphans, g, hremove, hg', hdrops⟩ := hg.removeAndReparent hp hroot
    exact ⟨g, by simp [prune, hd, hremove, Except.map], hg', hdrops⟩

end Traversal

end Cascade
