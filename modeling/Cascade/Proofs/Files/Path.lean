import Cascade.Files.Path
import Cascade.Proofs.Text.Blank

/-!
# Components of joined paths

A path that is put behind another one adds its own components, so long as none of
them is passed over (`components_join`).  In particular a name adds itself.
-/

namespace Cascade.Path

/-! ## Components -/

/-- A name that counts as one component and leads one level down. -/
structure IsName (name : String) : Prop where
  ne_empty : name ≠ ""
  plain : '/' ∉ name.toList
  ne_dot : name ≠ "."
  ne_dots : name ≠ ".."

instance (name : String) : Decidable (IsName name) :=
  decidable_of_iff (name ≠ "" ∧ '/' ∉ name.toList ∧ name ≠ "." ∧ name ≠ "..")
    ⟨fun h => ⟨h.1, h.2.1, h.2.2.1, h.2.2.2⟩, fun h => ⟨h.ne_empty, h.plain, h.ne_dot, h.ne_dots⟩⟩

theorem IsName.significant {name : String} (h : IsName name) : isSignificant name = true := by
  simp [isSignificant, h.ne_empty, h.ne_dot]

theorem IsName.segments {name : String} (h : IsName name) : (Path.mk name).segments = [name] := by
  rw [Path.segments, Text.splitAt_eq_singleton h.plain, List.map_singleton, String.ofList_toList]

theorem IsName.not_absolute {name : String} (h : IsName name) :
    (Path.mk name).isAbsolute = false := by
  refine decide_eq_false fun hhead => h.plain ?_
  exact List.mem_of_head? hhead

/-- The pieces before a slash come before those behind it. -/
theorem segments_append (before after : String) :
    (Path.mk (before ++ "/" ++ after)).segments =
      (Path.mk before).segments ++ (Path.mk after).segments := by
  rw [segments, segments, segments, ← List.map_append, ← Text.splitAt_append_cons]
  simp

/-- Every path has a first piece. -/
theorem exists_segments (p : Path) : ∃ first rest, p.segments = first :: rest := by
  obtain ⟨first, rest, h⟩ := Text.exists_splitAt '/' p.text.toList
  exact ⟨_, _, by rw [segments, h]; rfl⟩

/-- The components that some pieces stand for. -/
theorem components_eq (p : Path) : p.components =
    if p.isAbsolute then "/" :: p.segments.filter isSignificant
    else (if p.segments.head? = some "." then ["."] else []) ++
      p.segments.filter isSignificant := by
  obtain ⟨first, rest, hsegments⟩ := p.exists_segments
  unfold components
  split
  · rfl
  · rw [hsegments]
    split
    · rename_i heq
      cases heq
      simp [isSignificant]
    · rename_i hdot
      have hfirst : first ≠ "." := fun h => hdot rest (by rw [h])
      simp [hfirst]

/-- What stands before a slash has the same components as without it. -/
theorem components_slash {before : String} (h : before ≠ "") :
    (Path.mk (before ++ "/")).components = (Path.mk before).components := by
  have hslash : (Path.mk (before ++ "/")).segments = (Path.mk before).segments ++ [""] := by
    have happend := segments_append before ""
    rwa [String.append_empty] at happend
  have habsolute : (Path.mk (before ++ "/")).isAbsolute = (Path.mk before).isAbsolute := by
    cases hbefore : before.toList with
    | nil => exact absurd (String.toList_eq_nil_iff.mp hbefore) h
    | cons c rest => simp [isAbsolute, hbefore]
  obtain ⟨first, rest, hsegments⟩ := exists_segments ⟨before⟩
  rw [components_eq, components_eq, habsolute, hslash, hsegments, List.filter_append]
  simp [isSignificant]

/-- What stands behind a slash does not change what stands before it. -/
theorem components_append (before after : String) :
    (Path.mk (before ++ "/" ++ after)).components =
      (Path.mk (before ++ "/")).components ++ (Path.mk after).segments.filter isSignificant := by
  have hslash : (Path.mk (before ++ "/")).segments = (Path.mk before).segments ++ [""] := by
    have happend := segments_append before ""
    rwa [String.append_empty] at happend
  have habsolute : (Path.mk (before ++ "/" ++ after)).isAbsolute =
      (Path.mk (before ++ "/")).isAbsolute := by
    cases hbefore : before.toList <;> simp [isAbsolute, hbefore]
  obtain ⟨first, rest, hsegments⟩ := exists_segments ⟨before⟩
  rw [components_eq, components_eq, habsolute, segments_append, hslash, hsegments,
    List.filter_append, List.filter_append]
  cases (Path.mk (before ++ "/")).isAbsolute <;> simp [isSignificant]

/-- A path that is put behind the empty one is what it was; behind another one it
follows a slash. -/
theorem join_cases (p : Path) {tail : String} (habsolute : (Path.mk tail).isAbsolute = false) :
    (p = ⟨""⟩ ∧ p.join tail = ⟨tail⟩) ∨ ∃ before, p.join tail = ⟨before ++ "/" ++ tail⟩ ∧
      p.components = (Path.mk (before ++ "/")).components := by
  obtain ⟨text⟩ := p
  unfold join
  simp only [habsolute, Bool.false_eq_true, if_false]
  by_cases hempty : text = ""
  · subst hempty
    exact Or.inl ⟨rfl, by simp⟩
  refine Or.inr ?_
  by_cases hslash : text.toList.getLast? = some '/'
  · obtain ⟨before, hbefore⟩ := List.getLast?_eq_some_iff.mp hslash
    have htext : text = String.ofList before ++ "/" := by
      rw [← String.toList_inj, String.toList_append, String.toList_ofList, hbefore]
      rfl
    exact ⟨String.ofList before, by simp [htext], by rw [htext]⟩
  · exact ⟨text, by simp [hempty, hslash], (components_slash hempty).symm⟩

/-- A path behind another one adds its own components. -/
theorem components_join (p : Path) {tail : String} (habsolute : (Path.mk tail).isAbsolute = false)
    (hsignificant : ∀ segment ∈ (Path.mk tail).segments, isSignificant segment = true) :
    (p.join tail).components = p.components ++ (Path.mk tail).segments := by
  have hall : (Path.mk tail).segments.filter isSignificant = (Path.mk tail).segments :=
    List.filter_eq_self.mpr hsignificant
  rcases p.join_cases habsolute with ⟨rfl, hjoin⟩ | ⟨before, hjoin, hcomponents⟩
  · obtain ⟨first, rest, hsegments⟩ := exists_segments ⟨tail⟩
    have hfirst : first ≠ "." := by
      rintro rfl
      exact absurd (hsignificant "." (hsegments ▸ List.mem_cons_self ..)) (by decide)
    have hnothing : (Path.mk "").components = [] := by decide
    rw [hjoin, hnothing, List.nil_append, components_eq, habsolute, hall, hsegments]
    simp [hfirst]
  · rw [hjoin, components_append, hcomponents, hall]

/-- A name behind a path adds itself. -/
theorem components_join_name (p : Path) {name : String} (h : IsName name) :
    (p.join name).components = p.components ++ [name] := by
  rw [components_join p h.not_absolute, h.segments]
  intro segment hsegment
  rw [h.segments, List.mem_singleton] at hsegment
  rw [hsegment]
  exact h.significant

theorem fileName?_join_name (p : Path) {name : String} (h : IsName name) :
    (p.join name).fileName? = some name := by
  have hslash : name ≠ "/" := by
    rintro rfl
    exact h.plain (by decide)
  simp [fileName?, components_join_name p h, hslash, h.ne_dot, h.ne_dots]

/-- A component is not empty, and has no slash unless it is the root. -/
theorem plain_of_mem_components {p : Path} {name : String} (h : name ∈ p.components) :
    name ≠ "" ∧ (name = "/" ∨ '/' ∉ name.toList) := by
  have hplain : ∀ segment ∈ p.segments, '/' ∉ segment.toList := by
    intro segment hsegment
    obtain ⟨piece, hpiece, rfl⟩ := List.mem_map.mp hsegment
    rw [String.toList_ofList]
    exact Text.not_mem_of_mem_splitAt hpiece
  have hfiltered : name ∈ p.segments.filter isSignificant →
      name ≠ "" ∧ (name = "/" ∨ '/' ∉ name.toList) := by
    intro hmem
    obtain ⟨hsegment, hsignificant⟩ := List.mem_filter.mp hmem
    refine ⟨?_, Or.inr (hplain name hsegment)⟩
    rintro rfl
    cases hsignificant
  rw [components_eq] at h
  split at h
  · rcases List.mem_cons.mp h with rfl | h
    · exact ⟨by decide, Or.inl rfl⟩
    · exact hfiltered h
  · rcases List.mem_append.mp h with h | h
    · split at h
      · rw [List.mem_singleton.mp h]
        exact ⟨by decide, Or.inr (by decide)⟩
      · cases h
    · exact hfiltered h

end Cascade.Path
