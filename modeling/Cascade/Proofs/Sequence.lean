import Mathlib.Data.List.TakeWhile

/-!
# Lists that grow and lists that are read

Facts about lists alone that several developments need.
-/

namespace Cascade.Sequence

variable {α β : Type}

/-- A list that has grown by one element is split at this element, or where it could be
split before. -/
theorem concat_eq_append_cons {l before after : List α} {a b : α}
    (h : l ++ [a] = before ++ b :: after) :
    (before = l ∧ b = a ∧ after = []) ∨
      ∃ after', l = before ++ b :: after' ∧ after = after' ++ [a] := by
  rcases List.append_eq_append_iff.mp h with ⟨between, rfl, hrest⟩ | ⟨between, rfl, hrest⟩
  · cases between with
    | nil =>
      obtain ⟨rfl, rfl⟩ := List.cons.inj hrest
      exact Or.inl ⟨List.append_nil l, rfl, rfl⟩
    | cons _ between => cases between <;> cases hrest
  · cases between with
    | nil =>
      obtain ⟨rfl, rfl⟩ := List.cons.inj hrest
      exact Or.inl ⟨(List.append_nil before).symm, rfl, rfl⟩
    | cons _ between =>
      obtain ⟨rfl, rfl⟩ := List.cons.inj hrest
      exact Or.inr ⟨between, rfl, rfl⟩

/-- If something is found for every element, nothing is lost. -/
theorem map_some_filterMap {f : α → Option β} {l : List α} (h : ∀ a ∈ l, ∃ b, f a = some b) :
    (l.filterMap f).map some = l.map f := by
  induction l with
  | nil => rfl
  | cons a l ih =>
    obtain ⟨b, hb⟩ := h a (List.mem_cons_self ..)
    rw [List.filterMap_cons_some hb, List.map_cons, List.map_cons, hb,
      ih fun a' ha' => h a' (List.mem_cons_of_mem _ ha')]

/-- If something is dropped at the end of a list, the list goes on after the last element
that counts with nothing that counts. -/
theorem eq_append_of_dropWhile_reverse {counts : α → Bool} {l before : List α} {last : α}
    (h : l.reverse.dropWhile (!counts ·) = last :: before) :
    counts last = true ∧ ∃ after, l = before.reverse ++ last :: after ∧
      after.filter counts = [] := by
  refine ⟨?_, (l.reverse.takeWhile (!counts ·)).reverse, ?_, ?_⟩
  · have hhead := List.head?_dropWhile_not (!counts ·) l.reverse
    rw [h] at hhead
    simpa using hhead
  · have hsplit := List.takeWhile_append_dropWhile (p := (!counts ·)) (l := l.reverse)
    rw [h] at hsplit
    have hreverse := congrArg List.reverse hsplit
    rw [List.reverse_reverse, List.reverse_append, List.reverse_cons, List.append_assoc] at hreverse
    exact hreverse.symm
  · refine List.filter_eq_nil_iff.mpr fun a ha => ?_
    have hnot := List.mem_takeWhile_imp (List.mem_reverse.mp ha)
    simpa using hnot

end Cascade.Sequence
