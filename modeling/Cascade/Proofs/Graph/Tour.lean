import Cascade.Proofs.Graph.Search

/-!
# The first visits of a walk

The walk that visits children first comes to a node once for each path that leads there.
What counts is when it comes there first: `firstVisits` keeps that visit of each node and
leaves the root out.

* `visits` is what the walk from the root shows a visitor, `tour` the same as a recursion
  over the graph (`visits_eq_tour`).  The search for a node with a property is a search of
  the tour (`run_postOrder_eq_find?`).
* The first node of a tour has no children (`exists_tour_eq_cons`).
* A walk comes to every node (`Hierarchy.mem_firstVisits`).
* Without a node that has no children, the tour is the same but for this node
  (`Without.tour`).  So the first visits of a hierarchy are its first leaf, and then those
  of what is left without it (`Hierarchy.firstVisits_cases`).
-/

namespace Cascade.Graph

open Relation

variable {α : Type}

/-! ## Visits -/

/-- A visitor that writes down each node that it is shown. -/
def record (n : Node α) : StateM (List Nat) Bool := do
  modify (· ++ [n.position])
  return false

/-- The nodes in the order in which a walk from the root visits them, children first. -/
def visits (g : Graph α) : List Nat := ((g.postOrderSearch root record).run []).2

/-- The nodes in the order in which a walk from the root first comes to them, children
first, the root left out. -/
def firstVisits (g : Graph α) : List Nat := g.visits.eraseDups.filter (· ≠ root)

/-- The visits of a walk from a node, at most `depth` nodes deep. -/
def tour (g : Graph α) : Nat → Nat → List Nat
  | 0, _ => []
  | depth + 1, p =>
    match g.node? p with
    | none => []
    | some n => n.children.flatMap (tour g depth) ++ [p]

theorem tour_succ {g : Graph α} {p : Nat} (hp : g.Occupied p) (depth : Nat) :
    g.tour (depth + 1) p = (g.childrenOf p).flatMap (g.tour depth) ++ [p] := by
  obtain ⟨n, hn⟩ := hp.exists_node?
  rw [tour, hn, childrenOf_of_node? hn]

theorem tour_of_vacant {g : Graph α} {p : Nat} (hp : ¬ g.Occupied p) (depth : Nat) :
    g.tour depth p = [] := by
  cases depth with
  | zero => rfl
  | succ depth =>
    cases hn : g.node? p with
    | none => rw [tour, hn]
    | some n => exact absurd (occupied_of_node? hn) hp

/-- Walks that write down what they see and find nothing, one after the other. -/
theorem findSomeM?_run {f : Nat → StateM (List Nat) (Option Nat)} {t : Nat → List Nat}
    (l : List Nat) (h : ∀ c ∈ l, ∀ seen, (f c).run seen = (none, seen ++ t c))
    (seen : List Nat) : (l.findSomeM? f).run seen = (none, seen ++ l.flatMap t) := by
  induction l generalizing seen with
  | nil =>
    rw [List.flatMap_nil, List.append_nil]
    rfl
  | cons c l ih =>
    have hc := h c (List.mem_cons_self ..) seen
    have hrest := ih (fun c' hc' => h c' (List.mem_cons_of_mem c hc')) (seen ++ t c)
    rw [List.findSomeM?_cons, StateT.run_bind, hc]
    show (l.findSomeM? f).run (seen ++ t c) = _
    rw [hrest, List.flatMap_cons, List.append_assoc]

theorem Consistent.run_record {g : Graph α} (hg : g.Consistent) (depth p : Nat)
    (seen : List Nat) :
    (g.postOrder record depth p).run seen = (none, seen ++ g.tour depth p) := by
  induction depth generalizing p seen with
  | zero =>
    rw [tour, List.append_nil]
    rfl
  | succ depth ih =>
    rw [postOrder, tour]
    cases hn : g.node? p with
    | none =>
      rw [List.append_nil]
      rfl
    | some n =>
      have hchildren := findSomeM?_run n.children (fun c _ seen => ih c seen) seen
      dsimp only
      rw [StateT.run_bind, hchildren]
      show (none, seen ++ n.children.flatMap (g.tour depth) ++ [n.position]) = _
      rw [hg.node_position hn, List.append_assoc]

/-- The walk from the root is the tour of the root. -/
theorem Consistent.visits_eq_tour {g : Graph α} (hg : g.Consistent) :
    g.visits = g.tour g.slots.length root := by
  rw [visits, postOrderSearch, hg.run_record, List.nil_append]

/-- The walk that visits children first finds the first node of its tour with a property. -/
theorem run_postOrder_eq_find? (g : Graph α) (q : Node α → Bool) (depth p : Nat) :
    Id.run (g.postOrder (fun n => pure (q n)) depth p) =
      (g.tour depth p).find? fun r => (g.node? r).any q := by
  induction depth generalizing p with
  | zero => rfl
  | succ depth ih =>
    rw [run_postOrder_succ, tour]
    cases hn : g.node? p with
    | none => rfl
    | some n =>
      dsimp only
      rw [List.find?_append, List.find?_flatMap, ← funext ih]
      cases n.children.findSome? fun c => Id.run (g.postOrder (fun n => pure (q n)) depth c) with
      | some found => rfl
      | none => cases hq : q n <;> simp [hn, hq]

/-! ## Leaves -/

/-- The tour of a node is not empty, and begins with a node that has no children. -/
theorem Hierarchy.exists_tour_eq_cons {g : Graph α} (hg : g.Hierarchy) (depth p : Nat)
    (hp : g.Occupied p) (hdepth : g.weight p ≤ depth) :
    ∃ l rest, g.tour depth p = l :: rest ∧ g.Occupied l ∧ g.childrenOf l = [] := by
  induction depth generalizing p with
  | zero =>
    have hpos := hg.consistent.weight_pos hp
    omega
  | succ depth ih =>
    rw [tour_succ hp]
    cases hchildren : g.childrenOf p with
    | nil => exact ⟨p, [], rfl, hp, hchildren⟩
    | cons c rest =>
      have hedge : g.Edge p c := by
        rw [Edge, hchildren]
        exact List.mem_cons_self ..
      have hlt := hg.acyclic.weight_lt hg.consistent hedge
      obtain ⟨l, below, htour, hl⟩ := ih c (hg.consistent.occupied_target hedge) (by omega)
      refine ⟨l, below ++ rest.flatMap (g.tour depth) ++ [p], ?_, hl⟩
      rw [List.flatMap_cons, htour]
      simp

/-- An element that contributes nothing can be left out of a concatenation. -/
theorem flatMap_filter_ne {p : Nat} {f : Nat → List Nat} (hp : f p = []) (l : List Nat) :
    (l.filter (· ≠ p)).flatMap f = l.flatMap f := by
  induction l with
  | nil => rfl
  | cons c l ih =>
    by_cases hc : c = p
    · subst hc
      rw [List.filter_cons_of_neg (by simp), List.flatMap_cons, hp, ih]
      rfl
    · rw [List.filter_cons_of_pos (by simpa using hc), List.flatMap_cons, List.flatMap_cons, ih]

/-- A graph without one of its leaves is toured like before, but for the leaf. -/
theorem Without.tour {g g' : Graph α} {p : Nat} (h : g.Without p g')
    (hleaf : g.childrenOf p = []) (depth q : Nat) :
    g'.tour depth q = (g.tour depth q).filter (· ≠ p) := by
  induction depth generalizing q with
  | zero => rfl
  | succ depth ih =>
    by_cases hq : g.Occupied q
    · rw [tour_succ hq]
      by_cases hqp : q = p
      · subst hqp
        have hvacant : ¬ g'.Occupied q := fun hocc => (h.occupied_iff.mp hocc).1 rfl
        rw [tour_of_vacant hvacant, hleaf]
        simp
      · rw [tour_succ (h.occupied_iff.mpr ⟨hqp, hq⟩), h.childrenOf, if_neg hqp, funext ih]
        have hnone : (g.tour depth p).filter (· ≠ p) = [] := by
          rw [← ih]
          exact tour_of_vacant (fun hocc => (h.occupied_iff.mp hocc).1 rfl) depth
        rw [flatMap_filter_ne hnone, List.filter_append, List.filter_flatMap]
        simp [hqp]
    · have hvacant : ¬ g'.Occupied q := fun hocc => hq (h.occupied_iff.mp hocc).2
      rw [tour_of_vacant hq, tour_of_vacant hvacant]
      rfl

/-! ## First visits -/

/-- If the root has no children, there is no other node. -/
theorem Hierarchy.eq_root_of_childless {g : Graph α} (hg : g.Hierarchy)
    (h : g.childrenOf root = []) {p : Nat} (hp : g.Occupied p) : p = root := by
  obtain ⟨r, hr⟩ := hg.consistent.root_occupied.exists_node?
  rcases (hg.reaches hp).cases_children hr with heq | ⟨c, hc, _⟩
  · exact heq
  · rw [← childrenOf_of_node? hr, h] at hc
    cases hc

/-- Either the root is alone and there is nothing to visit, or there is a leaf that is
visited first, and what follows are the first visits of what is left without it. -/
theorem Hierarchy.firstVisits_cases {g : Graph α} (hg : g.Hierarchy) :
    (g.firstVisits = [] ∧ ∀ p, g.Occupied p → p = root) ∨
      ∃ l rest, g.tour g.slots.length root = l :: rest ∧ l ≠ root ∧ g.Occupied l ∧
        g.childrenOf l = [] ∧
        ∀ g', g.Without l g' → g.firstVisits = l :: g'.firstVisits := by
  obtain ⟨l, rest, htour, hl, hleaf⟩ := hg.exists_tour_eq_cons g.slots.length root
    hg.consistent.root_occupied (g.weight_le root)
  by_cases hroot : l = root
  · subst hroot
    refine Or.inl ⟨?_, fun p hp => hg.eq_root_of_childless hleaf hp⟩
    have hpos : g.slots.length ≠ 0 := by
      have hlt := hl.lt_length
      omega
    obtain ⟨depth, hdepth⟩ := Nat.exists_eq_succ_of_ne_zero hpos
    rw [firstVisits, hg.consistent.visits_eq_tour, hdepth, Nat.succ_eq_add_one, tour_succ hl,
      hleaf, List.flatMap_nil, List.nil_append]
    decide
  · refine Or.inr ⟨l, rest, htour, hroot, hl, hleaf, fun g' h => ?_⟩
    have hcons := hg.consistent.without hroot h
    have hrest : (l :: rest).filter (· ≠ l) = rest.filter (fun b => !b == l) := by
      rw [List.filter_cons_of_neg (by simp)]
      apply List.filter_congr
      intro b _
      simp [Bool.beq_eq_decide_eq]
    rw [firstVisits, firstVisits, hg.consistent.visits_eq_tour, hcons.visits_eq_tour, h.length,
      h.tour hleaf, htour, List.eraseDups_cons, hrest,
      List.filter_cons_of_pos (by simpa using hroot)]

theorem nodup_eraseDups (l : List Nat) : l.eraseDups.Nodup := by
  induction hn : l.length using Nat.strongRecOn generalizing l with
  | _ n ih =>
    cases l with
    | nil => exact List.nodup_nil
    | cons a l =>
      rw [List.eraseDups_cons, List.nodup_cons]
      have hlength := List.length_filter_le (fun b => !b == a) l
      rw [List.length_cons] at hn
      refine ⟨?_, ih _ (by omega) _ rfl⟩
      simp [List.mem_eraseDups]

theorem occupied_of_mem_tour {g : Graph α} {depth p q : Nat} (h : q ∈ g.tour depth p) :
    g.Occupied q := by
  induction depth generalizing p with
  | zero => cases h
  | succ depth ih =>
    by_cases hp : g.Occupied p
    · rw [tour_succ hp, List.mem_append, List.mem_flatMap, List.mem_singleton] at h
      rcases h with ⟨c, _, hc⟩ | rfl
      · exact ih hc
      · exact hp
    · rw [tour_of_vacant hp] at h
      cases h

/-- A walk comes to all that can be reached. -/
theorem Hierarchy.mem_tour {g : Graph α} (hg : g.Hierarchy) (depth : Nat) {p q : Nat}
    (hp : g.Occupied p) (hdepth : g.weight p ≤ depth) (h : g.Reaches p q) :
    q ∈ g.tour depth p := by
  induction depth generalizing p with
  | zero =>
    have hpos := hg.consistent.weight_pos hp
    omega
  | succ depth ih =>
    rw [tour_succ hp, List.mem_append, List.mem_flatMap]
    rcases h.cases_head with rfl | ⟨c, hedge, hreach⟩
    · exact Or.inr (List.mem_singleton_self _)
    · have hlt := hg.acyclic.weight_lt hg.consistent hedge
      exact Or.inl ⟨c, hedge, ih (hg.consistent.occupied_target hedge) (by omega) hreach⟩

/-- Every node of a hierarchy but the root is visited. -/
theorem Hierarchy.mem_firstVisits {g : Graph α} (hg : g.Hierarchy) {p : Nat} :
    p ∈ g.firstVisits ↔ p ≠ root ∧ g.Occupied p := by
  rw [firstVisits, List.mem_filter, List.mem_eraseDups, hg.consistent.visits_eq_tour,
    decide_eq_true_iff, and_comm]
  refine and_congr_right fun _ => ⟨occupied_of_mem_tour, fun hp => ?_⟩
  exact hg.mem_tour _ hg.consistent.root_occupied (g.weight_le root) (hg.reaches hp)

/-- No more nodes are visited than there are slots. -/
theorem Consistent.length_firstVisits_le {g : Graph α} (hg : g.Consistent) :
    g.firstVisits.length ≤ g.slots.length := by
  have hnodup : g.firstVisits.Nodup := (nodup_eraseDups g.visits).filter _
  have hsubset : g.firstVisits ⊆ List.range g.slots.length := by
    intro p hp
    rw [firstVisits, List.mem_filter, List.mem_eraseDups, hg.visits_eq_tour] at hp
    exact List.mem_range.mpr (occupied_of_mem_tour hp.1).lt_length
  have hle := (hnodup.subperm hsubset).length_le
  rwa [List.length_range] at hle

end Cascade.Graph
