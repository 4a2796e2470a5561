import Cascade.Text.Blank
import Mathlib.Data.List.TakeWhile

/-!
# Laws of blanks and lines

Trimming removes nothing from a text that neither starts nor ends with a blank,
and nothing is left at its ends that is one.  The lines of texts that end with a
newline each are these texts.
-/

namespace Cascade.Text

/-! ## Trimming -/

theorem trimStart_of_head {cs : List Char} (h : ∀ c ∈ cs.head?, isBlank c = false) :
    trimStart cs = cs := by
  cases cs with
  | nil => rfl
  | cons c cs =>
    have hc : isBlank c = false := h c rfl
    rw [trimStart, List.dropWhile_cons_of_neg (by simp [hc])]

theorem trimEnd_of_getLast {cs : List Char} (h : ∀ c ∈ cs.getLast?, isBlank c = false) :
    trimEnd cs = cs := by
  have hreverse : trimStart cs.reverse = cs.reverse :=
    trimStart_of_head (by rwa [List.head?_reverse])
  rw [trimEnd, ← trimStart, hreverse, List.reverse_reverse]

/-- What is left of a text at the front does not start with a blank. -/
theorem head_trimStart (cs : List Char) : ∀ c ∈ (trimStart cs).head?, isBlank c = false := by
  intro c hc
  have hnot := List.head?_dropWhile_not isBlank cs
  rw [← trimStart, Option.mem_def.mp hc] at hnot
  exact hnot

/-- What is left of a text at the back does not end with a blank. -/
theorem getLast_trimEnd (cs : List Char) : ∀ c ∈ (trimEnd cs).getLast?, isBlank c = false := by
  rw [trimEnd, List.getLast?_reverse]
  exact head_trimStart cs.reverse

theorem trimStart_suffix (cs : List Char) : trimStart cs <:+ cs := List.dropWhile_suffix _

theorem trimEnd_prefix_self (cs : List Char) : trimEnd cs <+: cs := by
  rw [← List.reverse_suffix, trimEnd, List.reverse_reverse]
  exact trimStart_suffix cs.reverse

/-- Nothing but blanks is removed from the back of a text. -/
theorem trimEnd_ne_nil {cs : List Char} {c : Char} (hmem : c ∈ cs) (hc : isBlank c = false) :
    trimEnd cs ≠ [] := by
  intro h
  rw [trimEnd, List.reverse_eq_nil_iff] at h
  have hblank := List.dropWhile_eq_nil_iff.mp h c (List.mem_reverse.mpr hmem)
  rw [hblank] at hc
  cases hc

theorem head_of_prefix {cs ds : List Char} (h : cs <+: ds) (hne : cs ≠ []) :
    cs.head? = ds.head? := by
  obtain ⟨rest, rfl⟩ := h
  cases cs with
  | nil => exact absurd rfl hne
  | cons c cs => rfl

/-! ## Lines -/

variable {α : Type} [DecidableEq α]

/-- There is always a first piece. -/
theorem exists_splitAt (separator : α) (cs : List α) :
    ∃ first pieces, splitAt separator cs = first :: pieces := by
  cases cs with
  | nil => exact ⟨[], [], rfl⟩
  | cons c cs =>
    unfold splitAt
    split
    · exact ⟨_, _, rfl⟩
    · split <;> exact ⟨_, _, rfl⟩

/-- The pieces before a separator come before those behind it. -/
theorem splitAt_append_cons (separator : α) (before rest : List α) :
    splitAt separator (before ++ separator :: rest) =
      splitAt separator before ++ splitAt separator rest := by
  induction before with
  | nil => simp [splitAt]
  | cons c before ih =>
    obtain ⟨first, pieces, hpieces⟩ := exists_splitAt separator before
    rw [List.cons_append, splitAt, splitAt, ih, hpieces]
    split <;> rfl

/-- A text without separators is one piece. -/
theorem splitAt_eq_singleton {separator : α} {piece : List α} (h : separator ∉ piece) :
    splitAt separator piece = [piece] := by
  induction piece with
  | nil => rfl
  | cons c piece ih =>
    rw [List.mem_cons, not_or] at h
    rw [splitAt, if_neg (Ne.symm h.1), ih h.2]

theorem splitAt_append {separator : α} {piece : List α} (h : separator ∉ piece) (rest : List α) :
    splitAt separator (piece ++ separator :: rest) = piece :: splitAt separator rest := by
  rw [splitAt_append_cons, splitAt_eq_singleton h, List.singleton_append]

/-- No piece has a separator. -/
theorem not_mem_of_mem_splitAt {separator : α} {cs piece : List α}
    (h : piece ∈ splitAt separator cs) : separator ∉ piece := by
  induction cs generalizing piece with
  | nil =>
    cases List.mem_singleton.mp h
    exact List.not_mem_nil
  | cons c cs ih =>
    rw [splitAt] at h
    split at h
    · rcases List.mem_cons.mp h with rfl | h
      · exact List.not_mem_nil
      · exact ih h
    · rename_i hc
      cases hpieces : splitAt separator cs with
      | nil =>
        rw [hpieces] at h
        cases List.mem_singleton.mp h
        simpa using Ne.symm hc
      | cons first pieces =>
        rw [hpieces] at h
        rcases List.mem_cons.mp h with rfl | h
        · have hfirst : separator ∉ first := ih (hpieces ▸ List.mem_cons_self ..)
          simp [Ne.symm hc, hfirst]
        · exact ih (hpieces ▸ List.mem_cons_of_mem _ h)

/-- What stands before the first separator is the first piece. -/
theorem append_cons_inj {separator : α} {piece piece' rest rest' : List α}
    (h : separator ∉ piece) (h' : separator ∉ piece') :
    piece ++ separator :: rest = piece' ++ separator :: rest' ↔ piece = piece' ∧ rest = rest' := by
  constructor
  · intro heq
    have hsplit := congrArg (splitAt separator) heq
    rw [splitAt_append h, splitAt_append h'] at hsplit
    obtain rfl := (List.cons.inj hsplit).1
    exact ⟨rfl, (List.cons.inj (List.append_cancel_left heq)).2⟩
  · rintro ⟨rfl, rfl⟩
    rfl

/-- The pieces that were put together with separators, none of which has one. -/
theorem splitAt_intercalate {separator : α} {pieces : List (List α)} (hne : pieces ≠ [])
    (h : ∀ piece ∈ pieces, separator ∉ piece) :
    splitAt separator ([separator].intercalate pieces) = pieces := by
  induction pieces with
  | nil => exact absurd rfl hne
  | cons piece rest ih =>
    have hpiece := splitAt_eq_singleton (h piece (List.mem_cons_self ..))
    cases rest with
    | nil => simpa using hpiece
    | cons next rest =>
      rw [List.intercalate_cons_cons, List.append_assoc, List.singleton_append,
        splitAt_append_cons, hpiece,
        ih (List.cons_ne_nil _ _) fun other hother => h other (List.mem_cons_of_mem _ hother)]
      rfl

omit [DecidableEq α] in
theorem mem_intercalate {separator c : α} {pieces : List (List α)}
    (h : c ∈ [separator].intercalate pieces) : c = separator ∨ ∃ piece ∈ pieces, c ∈ piece := by
  induction pieces with
  | nil => cases h
  | cons piece rest ih =>
    cases rest with
    | nil => exact Or.inr ⟨piece, List.mem_cons_self .., by simpa using h⟩
    | cons next rest =>
      rw [List.intercalate_cons_cons, List.append_assoc, List.mem_append,
        List.singleton_append, List.mem_cons] at h
      rcases h with h | rfl | h
      · exact Or.inr ⟨piece, List.mem_cons_self .., h⟩
      · exact Or.inl rfl
      · exact (ih h).imp id fun ⟨other, hother, hc⟩ =>
          ⟨other, List.mem_cons_of_mem _ hother, hc⟩

theorem splitAt_flatMap {separator : α} {pieces : List (List α)}
    (h : ∀ piece ∈ pieces, separator ∉ piece) :
    splitAt separator (pieces.flatMap (· ++ [separator])) = pieces ++ [[]] := by
  induction pieces with
  | nil => rfl
  | cons piece pieces ih =>
    rw [List.flatMap_cons, List.append_assoc, List.singleton_append,
      splitAt_append (h piece (List.mem_cons_self ..)),
      ih fun p hp => h p (List.mem_cons_of_mem _ hp), List.cons_append]

theorem lines_flatMap {texts : List (List Char)} (h : ∀ text ∈ texts, '\n' ∉ text) :
    lines (texts.flatMap (· ++ ['\n'])) = texts.map dropReturn := by
  rw [lines, splitAt_flatMap h]
  simp

theorem dropReturn_of_getLast {line : List Char} (h : ∀ c ∈ line.getLast?, isBlank c = false) :
    dropReturn line = line := by
  unfold dropReturn
  split
  · rename_i hlast
    exact absurd (h _ hlast) (by decide)
  · rfl

theorem dropReturn_sublist (line : List Char) : dropReturn line <+: line := by
  unfold dropReturn
  split
  · exact List.dropLast_prefix line
  · exact List.prefix_rfl

/-- No line has a newline. -/
theorem not_mem_of_mem_lines {cs line : List Char} (h : line ∈ lines cs) : '\n' ∉ line := by
  have hpieces : ∀ piece ∈ splitAt '\n' cs, '\n' ∉ piece := fun _ => not_mem_of_mem_splitAt
  have hended : ∀ line ∈ (splitAt '\n' cs).dropLast.map dropReturn, '\n' ∉ line := by
    intro line hline
    obtain ⟨piece, hpiece, rfl⟩ := List.mem_map.mp hline
    exact fun hmem => hpieces piece (List.dropLast_subset _ hpiece)
      ((dropReturn_sublist piece).subset hmem)
  unfold lines at h
  dsimp only at h
  split at h
  · exact hended line h
  · exact hended line h
  · rename_i rest _ hlast
    rcases List.mem_append.mp h with h | h
    · exact hended line h
    · rw [List.mem_singleton.mp h]
      exact hpieces rest (List.mem_of_getLast? hlast)

end Cascade.Text
