import Cascade.Proofs.Files.Path
import Cascade.Proofs.Sequence

/-!
# Parents of paths

The parent of a path is found in the way the path is spelled.  A path with a name is
found behind its parent: its components are those of the parent and the name
(`exists_parent_of_fileName?`).
-/

namespace Cascade.Path

/-! ## The first piece -/

/-- A path is empty, or its first piece tells whether it starts at the root. -/
theorem segments_cases (p : Path) :
    p = ⟨""⟩ ∨ (p.isAbsolute = true ∧ p.segments.head? = some "") ∨
      (p.isAbsolute = false ∧ ∃ first rest, p.segments = first :: rest ∧ first ≠ "") := by
  obtain ⟨text⟩ := p
  cases htext : text.toList with
  | nil => exact .inl (by rw [String.toList_eq_nil_iff.mp htext])
  | cons c rest =>
    obtain ⟨first, pieces, hpieces⟩ := Text.exists_splitAt '/' rest
    by_cases hc : c = '/'
    · exact .inr (.inl (by simp [isAbsolute, segments, htext, Text.splitAt, hc]))
    · refine .inr (.inr ⟨by simp [isAbsolute, htext, hc], String.ofList (c :: first),
        pieces.map String.ofList, ?_, ?_⟩)
      · simp [segments, htext, Text.splitAt, hc, hpieces]
      · simp

/-- Only the empty path has no component. -/
theorem components_eq_nil_iff {p : Path} : p.components = [] ↔ p = ⟨""⟩ := by
  refine ⟨fun h => ?_, by rintro rfl; decide⟩
  rw [components_eq] at h
  rcases p.segments_cases with hempty | ⟨habsolute, _⟩ | ⟨habsolute, first, rest, hsegments, hne⟩
  · exact hempty
  · simp [habsolute] at h
  · rw [habsolute, hsegments] at h
    by_cases hdot : first = "." <;> simp [isSignificant, hne, hdot] at h

/-- A path with a piece that counts as a component starts at the root if and only if its
first piece is empty. -/
theorem isAbsolute_iff {p : Path} {segment : String} (hmem : segment ∈ p.segments)
    (hsegment : isSignificant segment = true) :
    p.isAbsolute = true ↔ p.segments.head? = some "" := by
  rcases p.segments_cases with rfl | ⟨habsolute, hhead⟩ | ⟨habsolute, first, rest, hsegments, hne⟩
  · rw [show (Path.mk "").segments = [""] by decide, List.mem_singleton] at hmem
    rw [hmem] at hsegment
    cases hsegment
  · simp [habsolute, hhead]
  · simp [habsolute, hsegments, hne]

/-! ## Pieces put together -/

theorem not_mem_of_mem_segments {p : Path} {segment : String} (h : segment ∈ p.segments) :
    '/' ∉ segment.toList := by
  obtain ⟨piece, hpiece, rfl⟩ := List.mem_map.mp h
  rw [String.toList_ofList]
  exact Text.not_mem_of_mem_splitAt hpiece

/-- The pieces of a path are those it was put together of. -/
theorem segments_intercalate {pieces : List String} (hne : pieces ≠ [])
    (hplain : ∀ piece ∈ pieces, '/' ∉ piece.toList) :
    (Path.mk ("/".intercalate pieces)).segments = pieces := by
  have hslash : "/".toList = ['/'] := rfl
  rw [segments, String.toList_intercalate, hslash, Text.splitAt_intercalate (by simpa using hne)]
  · simp
  · intro piece hpiece
    obtain ⟨text, htext, rfl⟩ := List.mem_map.mp hpiece
    exact hplain text htext

/-- What a path adds behind a piece that counts are the components that are added. -/
theorem components_of_segments {p q : Path} {pieces after : List String} {last : String}
    (hlast : isSignificant last = true) (hq : q.segments = pieces ++ [last])
    (hp : p.segments = pieces ++ last :: after) :
    p.components = q.components ++ after.filter isSignificant := by
  have hhead : p.segments.head? = q.segments.head? := by
    rw [hp, hq]
    cases pieces <;> rfl
  have habsolute : p.isAbsolute = q.isAbsolute := by
    have hmemp : last ∈ p.segments := by simp [hp]
    have hmemq : last ∈ q.segments := by simp [hq]
    rw [Bool.eq_iff_iff, isAbsolute_iff hmemp hlast, isAbsolute_iff hmemq hlast, hhead]
  have hfilter : p.segments.filter isSignificant =
      q.segments.filter isSignificant ++ after.filter isSignificant := by
    simp [hp, hq, hlast]
  rw [p.components_eq, q.components_eq, habsolute, hhead, hfilter]
  split <;> simp

/-! ## Parents -/

/-- A path with a piece that counts has a parent, behind which the last such piece is the
last component. -/
theorem exists_parent {p : Path} {last : String} {rest : List String}
    (h : p.segments.reverse.dropWhile (!isSignificant ·) = last :: rest) :
    ∃ above, p.parent? = some above ∧ p.components = above.components ++ [last] := by
  obtain ⟨hlast, after, hsegments, hafter⟩ := Sequence.eq_append_of_dropWhile_reverse h
  unfold parent?
  simp only [h]
  cases hkept : rest.dropWhile (!isSignificant ·) with
  | nil =>
    have hrest : rest.reverse.filter isSignificant = [] := by
      refine List.filter_eq_nil_iff.mpr fun segment hsegment => ?_
      simpa using List.dropWhile_eq_nil_iff.mp hkept segment (List.mem_reverse.mp hsegment)
    have hfilter : p.segments.filter isSignificant = [last] := by
      rw [hsegments, List.filter_append, List.filter_cons_of_pos hlast, hafter, hrest]
      rfl
    have hdot : last ≠ "." := by
      rintro rfl
      cases hlast
    have hroot : (Path.mk "/").components = ["/"] := by decide
    have hhere : (Path.mk ".").components = ["."] := by decide
    have hempty : (Path.mk "").components = [] := by decide
    rw [components_eq, hfilter]
    by_cases habsolute : p.isAbsolute = true
    · exact ⟨⟨"/"⟩, by simp [habsolute], by simp [habsolute, hroot]⟩
    by_cases hhead : p.segments.head? = some "."
    · exact ⟨⟨"."⟩, by simp [habsolute, hhead], by simp [habsolute, hhead, hhere]⟩
    · exact ⟨⟨""⟩, by simp [habsolute, hhead, hdot], by simp [habsolute, hhead, hempty]⟩
  | cons kept before =>
    refine ⟨_, rfl, ?_⟩
    rw [← List.reverse_reverse rest] at hkept
    obtain ⟨hsignificant, between, hrest, hbetween⟩ :=
      Sequence.eq_append_of_dropWhile_reverse hkept
    rw [hrest, List.append_assoc, List.cons_append] at hsegments
    have hpieces : (Path.mk ("/".intercalate (before.reverse ++ [kept]))).segments =
        before.reverse ++ [kept] := by
      refine segments_intercalate (by simp) fun piece hpiece => not_mem_of_mem_segments (p := p) ?_
      rw [hsegments, List.append_cons]
      exact List.mem_append_left _ hpiece
    rw [List.reverse_cons, components_of_segments hsignificant hpieces hsegments,
      List.filter_append, List.filter_cons_of_pos hlast, hbetween, hafter]
    rfl

/-- The name of a path is its last component if it leads one level down. -/
theorem fileName?_eq_some_iff {p : Path} {name : String} :
    p.fileName? = some name ↔
      p.components.getLast? = some name ∧ name ≠ "/" ∧ name ≠ "." ∧ name ≠ ".." := by
  unfold fileName?
  cases p.components.getLast? with
  | none => simp
  | some last => grind

/-- A path with a name has a parent, behind which the name is the last component. -/
theorem exists_parent_of_fileName? {p : Path} {name : String} (h : p.fileName? = some name) :
    ∃ above, p.parent? = some above ∧ p.components = above.components ++ [name] := by
  obtain ⟨hlast, hroot, hdot, -⟩ := fileName?_eq_some_iff.mp h
  cases hpieces : p.segments.reverse.dropWhile (!isSignificant ·) with
  | nil =>
    have hnone : p.segments.filter isSignificant = [] := by
      refine List.filter_eq_nil_iff.mpr fun segment hsegment => ?_
      simpa using List.dropWhile_eq_nil_iff.mp hpieces segment (List.mem_reverse.mpr hsegment)
    rw [components_eq, hnone] at hlast
    split at hlast
    · cases hlast
      exact absurd rfl hroot
    · split at hlast
      · cases hlast
        exact absurd rfl hdot
      · cases hlast
  | cons last rest =>
    obtain ⟨above, hparent, hcomponents⟩ := exists_parent hpieces
    rw [hcomponents, List.getLast?_append, List.getLast?_singleton, Option.some_or] at hlast
    cases hlast
    exact ⟨above, hparent, hcomponents⟩

end Cascade.Path
