import Cascade.Proofs.Text.Blank
import Cascade.Store.Codec
import Mathlib.Data.List.Basic
import Mathlib.Data.List.Induction
import Std.Data.TreeMap

/-!
# Reading what was written

A hash is *legal* for an ID if a line can hold both.  What is read from any
text is legal, and legal hashes are read as they were written.
-/

namespace Cascade.Store

open Text

/-- An ID that can stand on a line. -/
structure IsKey (id : String) : Prop where
  ne_nil : id.toList ≠ []
  single : '\n' ∉ id.toList
  head : ∀ c ∈ id.toList.head?, isBlank c = false
  getLast : ∀ c ∈ id.toList.getLast?, isBlank c = false

/-- A hash that can stand behind an ID. -/
structure IsHash (hash : String) : Prop where
  ne_nil : hash.toList ≠ []
  solid : ∀ c ∈ hash.toList, isBlank c = false

/-- A line can hold the ID and the hash. -/
def Legal (id hash : String) : Prop := IsKey id ∧ IsHash hash

theorem isKey_iff {id : String} : IsKey id ↔ id.toList ≠ [] ∧ id.toList.contains '\n' = false ∧
    id.toList.head?.all (!isBlank ·) = true ∧ id.toList.getLast?.all (!isBlank ·) = true := by
  simp only [Option.all_eq_true, Bool.not_eq_eq_eq_not, Bool.not_true, List.contains_eq_mem,
    decide_eq_false_iff_not]
  exact ⟨fun h => ⟨h.ne_nil, h.single, h.head, h.getLast⟩,
    fun ⟨hne, hsingle, hhead, hlast⟩ => ⟨hne, hsingle, hhead, hlast⟩⟩

theorem isHash_iff {hash : String} :
    IsHash hash ↔ hash.toList ≠ [] ∧ hash.toList.all (!isBlank ·) = true := by
  simp only [List.all_eq_true, Bool.not_eq_eq_eq_not, Bool.not_true]
  exact ⟨fun h => ⟨h.ne_nil, h.solid⟩, fun ⟨hne, hsolid⟩ => ⟨hne, hsolid⟩⟩

instance (id : String) : Decidable (IsKey id) := decidable_of_iff _ isKey_iff.symm

instance (hash : String) : Decidable (IsHash hash) := decidable_of_iff _ isHash_iff.symm

instance (id hash : String) : Decidable (Legal id hash) := inferInstanceAs (Decidable (_ ∧ _))

/-! ## Lines -/

theorem splitAtLastBlank_append {id hash : List Char} (h : ∀ c ∈ hash, isBlank c = false) :
    splitAtLastBlank (id ++ ' ' :: hash) = some (id, hash) := by
  have hsolid : ∀ c ∈ hash.reverse, (!isBlank c) = true := by
    intro c hc
    rw [h c (List.mem_reverse.mp hc)]
    rfl
  have hblank : isBlank ' ' = true := by decide
  have hreverse : (id ++ ' ' :: hash).reverse = hash.reverse ++ ' ' :: id.reverse := by simp
  unfold splitAtLastBlank
  rw [hreverse, List.dropWhile_append_of_pos hsolid, List.takeWhile_append_of_pos hsolid]
  simp [hblank]

/-- A line that holds a legal hash. -/
def line (id hash : String) : List Char := id.toList ++ ' ' :: hash.toList

theorem getLast_line {id hash : String} (h : IsHash hash) :
    ∀ c ∈ (line id hash).getLast?, isBlank c = false := by
  intro c hc
  have hlast : (line id hash).getLast? = hash.toList.getLast? := by
    rw [line, List.getLast?_append, List.getLast?_cons, Option.some_or]
    cases hhash : hash.toList.getLast? with
    | none => exact absurd (List.getLast?_eq_none_iff.mp hhash) h.ne_nil
    | some c => rfl
  rw [hlast] at hc
  exact h.solid c (List.mem_of_getLast? hc)

/-- What is written on a line is read from it. -/
theorem entryOfLine_line {id hash : String} (h : Legal id hash) :
    entryOfLine (line id hash) = some (id, hash) := by
  have hhead : ∀ c ∈ (line id hash).head?, isBlank c = false := by
    intro c hc
    rw [line, ← head_of_prefix (List.prefix_append _ _) h.1.ne_nil] at hc
    exact h.1.head c hc
  unfold entryOfLine
  rw [trim, trimStart_of_head hhead, trimEnd_of_getLast (getLast_line h.2), line,
    splitAtLastBlank_append h.2.solid, Option.map_some]
  dsimp only
  rw [trimEnd_of_getLast h.1.getLast, String.ofList_toList, String.ofList_toList]

/-- What was split at its last blank. -/
theorem of_splitAtLastBlank {cs before behind : List Char}
    (h : splitAtLastBlank cs = some (before, behind)) :
    ∃ blank, isBlank blank = true ∧ cs = before ++ blank :: behind ∧
      ∀ c ∈ behind, isBlank c = false := by
  unfold splitAtLastBlank at h
  split at h
  · cases h
  rename_i blank rest hdrop
  cases h
  refine ⟨blank, ?_, ?_, fun c hc => ?_⟩
  · have hnot := List.head?_dropWhile_not (!isBlank ·) cs.reverse
    rw [hdrop] at hnot
    simpa using hnot
  · have hparts : cs.reverse = cs.reverse.takeWhile (!isBlank ·) ++ blank :: rest := by
      rw [← hdrop, List.takeWhile_append_dropWhile]
    simpa using congrArg List.reverse hparts
  · simpa using List.mem_takeWhile_imp (List.mem_reverse.mp hc)

/-- What begins with no blank is a key without the blanks at its end. -/
theorem isKey_trimEnd {first : Char} {more : List Char} (hfirst : isBlank first = false)
    (hsingle : '\n' ∉ first :: more) : IsKey (String.ofList (trimEnd (first :: more))) := by
  have hne : trimEnd (first :: more) ≠ [] := trimEnd_ne_nil (List.mem_cons_self ..) hfirst
  constructor <;> rw [String.toList_ofList]
  · exact hne
  · exact fun hmem => hsingle ((trimEnd_prefix_self _).subset hmem)
  · have hhead := head_of_prefix (trimEnd_prefix_self _) hne
    rw [hhead]
    intro c hc
    cases hc
    exact hfirst
  · exact getLast_trimEnd _

/-- What is read from a line is legal. -/
theorem legal_of_entryOfLine {text : List Char} (htext : '\n' ∉ text) {id hash : String}
    (h : entryOfLine text = some (id, hash)) : Legal id hash := by
  obtain ⟨⟨before, behind⟩, hsplit, heq⟩ := Option.map_eq_some_iff.mp h
  cases heq
  obtain ⟨blank, hblank, htrim, hsolid⟩ := of_splitAtLastBlank hsplit
  have hsub : trim text <:+: text :=
    (trimEnd_prefix_self _).isInfix.trans (trimStart_suffix _).isInfix
  have hhead : ∀ c ∈ (trim text).head?, isBlank c = false := by
    have hne : trim text ≠ [] := by simp [htrim]
    rw [trim, head_of_prefix (trimEnd_prefix_self _) hne]
    exact head_trimStart text
  have hlast : ∀ c ∈ (trim text).getLast?, isBlank c = false := getLast_trimEnd _
  -- the blank stands neither first nor last, since there are none at the ends
  rw [htrim] at hsub hhead hlast
  constructor
  · cases before with
    | nil => cases hblank.symm.trans (hhead blank rfl)
    | cons first more =>
      refine isKey_trimEnd (hhead first rfl) fun hmem => htext (hsub.subset ?_)
      exact List.mem_append_left _ hmem
  · constructor <;> rw [String.toList_ofList]
    · rintro rfl
      rw [List.getLast?_append] at hlast
      cases hblank.symm.trans (hlast blank rfl)
    · exact hsolid

/-! ## Texts -/

/-- What is inserted one after the other. -/
theorem foldl_insert (entries : List (String × String)) (hashes : Dictionary) :
    entries.foldl (fun m (id, hash) => m.insert id hash) hashes = hashes.insertMany entries := by
  induction entries generalizing hashes with
  | nil => rfl
  | cons entry entries ih => exact (ih _).trans Std.TreeMap.insertMany_cons.symm

/-- Everything that is read from a text is legal. -/
theorem legal_of_parse {text id hash : String} (h : (parse text)[id]? = some hash) :
    Legal id hash := by
  have hentries : ∀ entry ∈ (lines text.toList).filterMap entryOfLine, Legal entry.1 entry.2 := by
    intro entry hmem
    obtain ⟨line, hline, hentry⟩ := List.mem_filterMap.mp hmem
    exact legal_of_entryOfLine (not_mem_of_mem_lines hline) hentry
  unfold parse at h
  generalize (lines text.toList).filterMap entryOfLine = entries at h hentries
  induction entries using List.reverseRecOn generalizing id hash with
  | nil => simp at h
  | append_singleton entries entry ih =>
    rw [List.foldl_append, List.foldl_cons, List.foldl_nil, Std.TreeMap.getElem?_insert] at h
    split at h
    · rename_i heq
      cases Std.LawfulEqCmp.eq_of_compare heq
      cases h
      exact hentries entry (by simp)
    · exact ih h fun e he => hentries e (List.mem_append_left _ he)

theorem toList_render (hashes : Dictionary) :
    (render hashes).toList = (hashes.toList.map fun entry => line entry.1 entry.2).flatMap
      (· ++ ['\n']) := by
  unfold render
  induction hashes.toList with
  | nil => rfl
  | cons entry entries ih =>
    rw [List.map_cons, String.join_cons, String.toList_append, ih]
    simp [line]

/-- Legal hashes are read as they were written. -/
theorem getElem?_parse_render {hashes : Dictionary}
    (h : ∀ id hash, hashes[id]? = some hash → Legal id hash) (id : String) :
    (parse (render hashes))[id]? = hashes[id]? := by
  have hlegal : ∀ entry ∈ hashes.toList, Legal entry.1 entry.2 := fun entry hmem =>
    h _ _ (Std.TreeMap.mem_toList_iff_getElem?_eq_some.mp hmem)
  have hsingle : ∀ text ∈ hashes.toList.map fun entry => line entry.1 entry.2, '\n' ∉ text := by
    intro text hmem
    obtain ⟨entry, hentry, rfl⟩ := List.mem_map.mp hmem
    obtain ⟨hkey, hhash⟩ := hlegal entry hentry
    rw [line, List.mem_append, List.mem_cons, not_or, not_or]
    refine ⟨hkey.single, by decide, fun hmem => ?_⟩
    exact absurd (hhash.solid _ hmem) (by decide)
  have hentries : (lines (render hashes).toList).filterMap entryOfLine = hashes.toList := by
    rw [toList_render, lines_flatMap hsingle, List.map_map, List.filterMap_map]
    refine (List.filterMap_congr fun entry hmem => ?_).trans List.filterMap_some
    have hlast : ∀ c ∈ (line entry.1 entry.2).getLast?, isBlank c = false :=
      getLast_line (hlegal entry hmem).2
    rw [Function.comp, Function.comp, dropReturn_of_getLast hlast,
      entryOfLine_line (hlegal entry hmem)]
  rw [parse, hentries, foldl_insert]
  cases hget : hashes[id]? with
  | some hash =>
    exact Std.TreeMap.getElem?_insertMany_list_of_mem Std.ReflCmp.compare_self
      Std.TreeMap.distinct_keys_toList (Std.TreeMap.mem_toList_iff_getElem?_eq_some.mpr hget)
  | none =>
    rw [Std.TreeMap.getElem?_insertMany_list_of_contains_eq_false]
    · exact Std.TreeMap.getElem?_emptyc
    · rw [Std.TreeMap.map_fst_toList_eq_keys, Std.TreeMap.contains_keys,
        Std.TreeMap.contains_eq_isSome_getElem?, hget]
      rfl

end Cascade.Store
