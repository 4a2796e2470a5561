import Cascade.Graph.Walk
import Cascade.Proofs.Graph.Hierarchy

/-!
# Searching a graph for a node

The two walks, with a visitor that only tells whether a node has a property,
are searches.  `Searches` is what they have in common, whatever the order in
which they look: a search of a node looks at the node itself and searches its
children.  What a search finds has the property, and in a graph without
cycles it misses nothing that can be reached.
-/

namespace Cascade.Graph

variable {α : Type}

/-- The walk that visits parents first, as a search. -/
theorem run_preOrder_succ (g : Graph α) (q : Node α → Bool) (depth p : Nat) :
    Id.run (g.preOrder (fun n => pure (q n)) (depth + 1) p) =
      match g.node? p with
      | none => none
      | some n =>
        if q n then some p
        else n.children.findSome? fun c => Id.run (g.preOrder (fun n => pure (q n)) depth c) := by
  rw [preOrder]
  cases g.node? p with
  | none => rfl
  | some n =>
    simp only [← List.idRun_findSomeM?]
    by_cases h : q n = true
    · simp [h]
    · simp [h]

/-- The walk that visits children first, as a search. -/
theorem run_postOrder_succ (g : Graph α) (q : Node α → Bool) (depth p : Nat) :
    Id.run (g.postOrder (fun n => pure (q n)) (depth + 1) p) =
      match g.node? p with
      | none => none
      | some n =>
        match n.children.findSome? fun c =>
            Id.run (g.postOrder (fun n => pure (q n)) depth c) with
        | some found => some found
        | none => if q n then some p else none := by
  rw [postOrder]
  cases g.node? p with
  | none => rfl
  | some n =>
    simp only [← List.idRun_findSomeM?, Id.run_bind]
    cases Id.run (n.children.findSomeM? (g.postOrder (fun n => pure (q n)) depth)) with
    | some found => rfl
    | none => by_cases h : q n = true <;> simp [h]

variable {g : Graph α} {q : Node α → Bool}

/-! ## Searches -/

/-- A search for a node with the property `q`, given how deep it may go and
where it begins. -/
structure Searches (g : Graph α) (q : Node α → Bool) (search : Nat → Nat → Option Nat) :
    Prop where
  shallow : ∀ p, search 0 p = none
  found : ∀ {depth p r}, search (depth + 1) p = some r →
    ∃ n, g.node? p = some n ∧ ((r = p ∧ q n = true) ∨ ∃ c ∈ n.children, search depth c = some r)
  missed : ∀ {depth p n}, search (depth + 1) p = none → g.node? p = some n →
    q n = false ∧ ∀ c ∈ n.children, search depth c = none

theorem searches_preOrder (g : Graph α) (q : Node α → Bool) :
    g.Searches q fun depth p => Id.run (g.preOrder (fun n => pure (q n)) depth p) := by
  refine ⟨fun _ => rfl, fun {depth p r} h => ?_, fun {depth p n} h hn => ?_⟩
  · rw [run_preOrder_succ] at h
    split at h
    · cases h
    · rename_i n hn
      refine ⟨n, hn, ?_⟩
      split at h
      · rename_i hq
        exact Or.inl ⟨(Option.some.inj h).symm, hq⟩
      · exact Or.inr (List.exists_of_findSome?_eq_some h)
  · rw [run_preOrder_succ, hn] at h
    dsimp only at h
    split at h
    · cases h
    · rename_i hq
      exact ⟨Bool.eq_false_iff.mpr hq, List.findSome?_eq_none_iff.mp h⟩

theorem searches_postOrder (g : Graph α) (q : Node α → Bool) :
    g.Searches q fun depth p => Id.run (g.postOrder (fun n => pure (q n)) depth p) := by
  refine ⟨fun _ => rfl, fun {depth p r} h => ?_, fun {depth p n} h hn => ?_⟩
  · rw [run_postOrder_succ] at h
    split at h
    · cases h
    · rename_i n hn
      refine ⟨n, hn, ?_⟩
      split at h
      · rename_i found hbelow
        exact Or.inr (List.exists_of_findSome?_eq_some (hbelow.trans h))
      · split at h
        · rename_i hq
          exact Or.inl ⟨(Option.some.inj h).symm, hq⟩
        · cases h
  · rw [run_postOrder_succ, hn] at h
    dsimp only at h
    split at h
    · cases h
    · rename_i hbelow
      split at h
      · cases h
      · rename_i hq
        exact ⟨Bool.eq_false_iff.mpr hq, List.findSome?_eq_none_iff.mp hbelow⟩

namespace Searches

variable {search : Nat → Nat → Option Nat}

/-- What a search finds has the property. -/
theorem some_has (hs : g.Searches q search) (depth p : Nat) {r : Nat}
    (h : search depth p = some r) : ∃ n, g.node? r = some n ∧ q n = true := by
  induction depth generalizing p with
  | zero =>
    rw [hs.shallow] at h
    cases h
  | succ depth ih =>
    obtain ⟨n, hn, ⟨rfl, hq⟩ | ⟨c, _, hfound⟩⟩ := hs.found h
    · exact ⟨n, hn, hq⟩
    · exact ih c hfound

/-- When a search that may go deep enough finds nothing, nothing below has
the property.  The weight falls from a node to its children, so a depth that
is enough for a node is enough for its children, less one. -/
theorem none_lacks (hs : g.Searches q search) (hg : g.Consistent) (hac : g.Acyclic)
    (depth p : Nat) (hp : g.Occupied p) (hdepth : g.weight p ≤ depth)
    (h : search depth p = none) :
    ∀ r m, g.Reaches p r → g.node? r = some m → q m = false := by
  induction depth generalizing p with
  | zero =>
    have hpos := hg.weight_pos hp
    omega
  | succ depth ih =>
    intro r m hreach hm
    obtain ⟨n, hn⟩ := hp.exists_node?
    obtain ⟨hq, hchildren⟩ := hs.missed h hn
    rcases hreach.cases_children hn with rfl | ⟨c, hc, hreach⟩
    · rw [hn] at hm
      cases hm
      exact hq
    · have hedge := (edge_iff_of_node? hn).mpr hc
      have hlt := hac.weight_lt hg hedge
      exact ih c (hg.occupied_target hedge) (by omega) (hchildren c hc) r m hreach hm

/-- A search from the root of a hierarchy that finds nothing has seen every
node. -/
theorem none_lacks_root (hs : g.Searches q search) (hg : g.Hierarchy)
    (h : search g.slots.length root = none) {p : Nat} {n : Node α} (hn : g.node? p = some n) :
    q n = false :=
  hs.none_lacks hg.consistent hg.acyclic _ root hg.consistent.root_occupied
    (g.weight_le root) h p n (hg.reaches (occupied_of_node? hn)) hn

end Searches

end Cascade.Graph
