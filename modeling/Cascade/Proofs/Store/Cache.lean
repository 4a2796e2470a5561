import Cascade.Proofs.Files.Memory
import Cascade.Store.Basic
import Mathlib.Data.List.Sort

/-!
# What a store in a file does to a tree

The file lies in a directory of its own below the root, which comes into being
with it.  `Grown` says how two trees of one run differ: in what lies in this
directory, and in whether it is there at all.
-/

namespace Cascade.MemoryFiles

open Store (filePath)

variable {root : Path} {m m' m₀ : MemoryFiles}

/-! ## The directory of the store -/

/-- The key of the directory that holds the store. -/
def stateKey (root : Path) : List String := root.components ++ [".depdag"]

/-- The key of the root's directory. -/
def rootKey (root : Path) : List String := parentKey root.components.reverse

theorem rootKey_eq (root : Path) :
    (root.components = [] ∧ rootKey root = here) ∨ rootKey root = root.components := by
  unfold rootKey parentKey
  cases hroot : root.components with
  | nil => exact Or.inl ⟨rfl, rfl⟩
  | cons first rest => exact Or.inr (by simp)

theorem parentKey_stateKey (root : Path) :
    parentKey (".depdag" :: root.components.reverse) = stateKey root := by
  simp [parentKey, stateKey]

theorem components_filePath (root : Path) :
    (filePath root).components = stateKey root ++ ["cache"] := by
  have hsegments : (Path.mk ".depdag/cache").segments = [".depdag", "cache"] := by decide
  rw [filePath, Path.components_join root (by decide) (by rw [hsegments]; decide), hsegments,
    stateKey, List.append_assoc]
  rfl

theorem stateKey_ne_rootKey (root : Path) : stateKey root ≠ rootKey root := by
  rcases rootKey_eq root with ⟨hroot, hkey⟩ | hkey
  · rw [stateKey, hkey, hroot]
    decide
  · rw [hkey]
    exact fun h => by simpa [stateKey] using congrArg List.length h

theorem filePath_ne_rootKey (root : Path) : (filePath root).components ≠ rootKey root := by
  rw [components_filePath]
  intro h
  have hlength := congrArg List.length h
  rcases rootKey_eq root with ⟨hroot, hkey⟩ | hkey
  · rw [hkey] at hlength
    simp [stateKey, here] at hlength
  · rw [hkey] at hlength
    simp [stateKey] at hlength

/-- Nothing but the directories above the store is linked when it is written. -/
theorem addFile_filePath (hroot : rootKey root ∈ m.entries) (content : ByteArray) :
    let written : MemoryFiles := ⟨m.entries.insert (filePath root).components (.file content)⟩
    let linked := enlist "cache" (stateKey root) written
    m.addFile (filePath root) content =
      if stateKey root ∈ m.entries then linked
      else enlist ".depdag" (rootKey root) linked := by
  intro written linked
  have hreverse : (filePath root).components.reverse =
      "cache" :: ".depdag" :: root.components.reverse := by
    rw [components_filePath, stateKey]
    simp
  have hstate : stateKey root ∈ written.entries ↔ stateKey root ∈ m.entries := by
    rw [Std.TreeMap.mem_insert, Std.compare_eq_iff_eq, components_filePath]
    simp
  have hthere : rootKey root ∈ linked.entries :=
    mem_enlist.mpr (Or.inr (Std.TreeMap.mem_insert.mpr (Or.inr hroot)))
  have hfirst : isTop ("cache" :: ".depdag" :: root.components.reverse) = false := by
    simp [isTop]
  have hsecond : isTop (".depdag" :: root.components.reverse) = false := by simp [isTop]
  have hup : linkUp (".depdag" :: root.components.reverse) linked =
      enlist ".depdag" (rootKey root) linked := by
    rw [linkUp_cons, hsecond, if_neg Bool.false_ne_true]
    exact if_pos hthere
  change linkUp (filePath root).components.reverse written = _
  rw [hreverse, linkUp_cons, hfirst, if_neg Bool.false_ne_true, parentKey_stateKey, hup]
  by_cases hold : stateKey root ∈ m.entries
  · rw [if_pos hold, if_pos (hstate.mpr hold)]
  · rw [if_neg hold, if_neg (mt hstate.mp hold)]

/-- Writing the store leaves all entries but those on the way to it. -/
theorem getElem?_addFile_of_ne (hroot : rootKey root ∈ m.entries) (content : ByteArray)
    {key : List String} (hfile : key ≠ (filePath root).components) (hstate : key ≠ stateKey root)
    (hkey : key ≠ rootKey root) :
    (m.addFile (filePath root) content).entries[key]? = m.entries[key]? := by
  have hwritten : (m.entries.insert (filePath root).components
      (MemoryEntry.file content))[key]? = m.entries[key]? := by
    rw [Std.TreeMap.getElem?_insert, if_neg (by simpa using Ne.symm hfile)]
  rw [addFile_filePath hroot content]
  split
  · rw [getElem?_enlist, if_neg (Ne.symm hstate)]
    exact hwritten
  · rw [getElem?_enlist, if_neg (Ne.symm hkey), getElem?_enlist,
      if_neg (Ne.symm hstate)]
    exact hwritten

/-- The directory of the store lists it when it is written. -/
theorem getElem?_addFile_stateKey (hroot : rootKey root ∈ m.entries) (content : ByteArray) :
    (m.addFile (filePath root) content).entries[stateKey root]? =
      some (addName "cache" (m.entries[stateKey root]?.getD (.directory ∅))) := by
  have hwritten : (m.entries.insert (filePath root).components
      (MemoryEntry.file content))[stateKey root]? = m.entries[stateKey root]? := by
    rw [Std.TreeMap.getElem?_insert, if_neg]
    rw [components_filePath]
    simp
  have hlinked : (enlist "cache" (stateKey root)
      ⟨m.entries.insert (filePath root).components (.file content)⟩).entries[stateKey root]? =
        some (addName "cache" (m.entries[stateKey root]?.getD (.directory ∅))) := by
    rw [getElem?_enlist, if_pos rfl]
    exact congrArg (fun e : Option MemoryEntry => some (addName "cache" (e.getD (.directory ∅))))
      hwritten
  rw [addFile_filePath hroot]
  split
  · exact hlinked
  · rw [getElem?_enlist, if_neg (Ne.symm (stateKey_ne_rootKey root))]
    exact hlinked

/-- The root's directory lists that of the store when this comes into being. -/
theorem getElem?_addFile_rootKey (hroot : rootKey root ∈ m.entries) (content : ByteArray) :
    (m.addFile (filePath root) content).entries[rootKey root]? =
      if stateKey root ∈ m.entries then m.entries[rootKey root]?
      else (m.entries[rootKey root]?).map (addName ".depdag") := by
  have hwritten : (m.entries.insert (filePath root).components
      (MemoryEntry.file content))[rootKey root]? = m.entries[rootKey root]? := by
    rw [Std.TreeMap.getElem?_insert, if_neg]
    simpa using filePath_ne_rootKey root
  have hlinked : (enlist "cache" (stateKey root)
      ⟨m.entries.insert (filePath root).components (.file content)⟩).entries[rootKey root]? =
        m.entries[rootKey root]? := by
    rw [getElem?_enlist, if_neg (stateKey_ne_rootKey root)]
    exact hwritten
  obtain ⟨entry, hentry⟩ := exists_entry hroot
  rw [addFile_filePath hroot]
  split
  · exact hlinked
  · rw [getElem?_enlist, if_pos rfl, hlinked, hentry]
    rfl

/-! ## Trees of one run -/

/-- What an entry is, whether it lists a name or not. -/
def besides (name : String) : MemoryEntry → List String ⊕ MemoryEntry
  | .directory names => .inl (names.toList.filter (· ≠ name))
  | entry => .inr entry

/-- Sets of names that have the same members are listed alike. -/
theorem filter_toList_eq {names names' : Std.TreeSet String} {p : String → Bool}
    (h : ∀ name, p name = true → (name ∈ names ↔ name ∈ names')) :
    names.toList.filter p = names'.toList.filter p := by
  have hirrefl : Std.Irrefl fun a b : String => compare a b = .lt :=
    ⟨fun a h => by cases (Std.ReflCmp.compare_self : compare a a = .eq).symm.trans h⟩
  have hantisymm : Std.Antisymm fun a b : String => compare a b = .lt :=
    ⟨fun a b h h' => by
      rw [(Std.OrientedCmp.eq_swap : compare a b = (compare b a).swap), h'] at h
      cases h⟩
  refine (Std.TreeSet.ordered_toList.filter _).eq_of_mem_iff
    (Std.TreeSet.ordered_toList.filter _) fun name => ?_
  simp only [List.mem_filter, Std.TreeSet.mem_toList]
  exact and_congr_left fun hname => h name hname

theorem besides_addName (name : String) (entry : MemoryEntry) :
    besides name (addName name entry) = besides name entry := by
  unfold addName
  split
  · split
    · refine congrArg Sum.inl (filter_toList_eq fun other hother => ?_)
      rw [Std.TreeSet.mem_insert, Std.compare_eq_iff_eq, or_iff_right]
      exact Ne.symm (of_decide_eq_true hother)
    · rfl
  · rfl

theorem kindOf_addName (name : String) (entry : MemoryEntry) :
    kindOf (some (addName name entry)) = kindOf (some entry) := by
  unfold addName
  split
  · split <;> rfl
  · rfl

/-- A tree after another one in a run with a store in a file: the directory of the
store may have come into being and its content may have changed, and that is
all. -/
structure Grown (root : Path) (m m' : MemoryFiles) : Prop where
  others {key : List String} : ¬ stateKey root <+: key → key ≠ rootKey root →
    m'.entries[key]? = m.entries[key]?
  state : (m'.entries[stateKey root]? = m.entries[stateKey root]? ∧
      m'.entries[rootKey root]? = m.entries[rootKey root]?) ∨
    ((m.entries[stateKey root]? = none ∨ kindOf m.entries[stateKey root]? = .directory) ∧
      kindOf m'.entries[stateKey root]? = .directory ∧
      m'.entries[rootKey root]?.map (besides ".depdag") =
        m.entries[rootKey root]?.map (besides ".depdag"))

namespace Grown

theorem refl (root : Path) (m : MemoryFiles) : Grown root m m := ⟨fun _ _ => rfl, Or.inl ⟨rfl, rfl⟩⟩

theorem mem_rootKey (h : Grown root m m') :
    rootKey root ∈ m'.entries ↔ rootKey root ∈ m.entries := by
  rw [Std.TreeMap.mem_iff_isSome_getElem?, Std.TreeMap.mem_iff_isSome_getElem?]
  rcases h.state with ⟨_, hsame⟩ | ⟨_, _, hsame⟩
  · rw [hsame]
  · have hsome := congrArg Option.isSome hsame
    rw [Option.isSome_map, Option.isSome_map] at hsome
    rw [hsome]

/-- Writing the store makes a tree grow. -/
theorem addFile (h : Grown root m₀ m) (hroot : rootKey root ∈ m₀.entries) (content : ByteArray) :
    Grown root m₀ (m.addFile (filePath root) content) := by
  have hroot' := h.mem_rootKey.mpr hroot
  refine ⟨fun {key} hstate hkey => ?_, ?_⟩
  · have hfile : key ≠ (filePath root).components := by
      rintro rfl
      exact hstate (components_filePath root ▸ List.prefix_append ..)
    have hne : key ≠ stateKey root := by
      rintro rfl
      exact hstate List.prefix_rfl
    rw [getElem?_addFile_of_ne hroot' content hfile hne hkey, h.others hstate hkey]
  have hstate := getElem?_addFile_stateKey hroot' content
  have hlisted := getElem?_addFile_rootKey hroot' content
  simp only [Std.TreeMap.mem_iff_isSome_getElem?] at hlisted
  cases hold : m.entries[stateKey root]? with
  | none =>
    rw [hold] at hstate hlisted
    refine Or.inr ⟨Or.inl ?_, by rw [hstate]; rfl, ?_⟩
    · rcases h.state with ⟨hsame, _⟩ | ⟨_, hdirectory, _⟩
      · exact hsame.symm.trans hold
      · rw [hold] at hdirectory
        cases hdirectory
    · have hbesides : m.entries[rootKey root]?.map (besides ".depdag") =
          m₀.entries[rootKey root]?.map (besides ".depdag") := by
        rcases h.state with ⟨_, hsame⟩ | ⟨_, _, hsame⟩
        · rw [hsame]
        · exact hsame
      rw [hlisted, ← hbesides]
      simp only [Option.isSome_none, Bool.false_eq_true, if_false, Option.map_map]
      congr 1
      funext entry
      exact besides_addName ".depdag" entry
  | some entry =>
    rw [hold] at hstate hlisted
    rw [Option.getD_some] at hstate
    simp only [Option.isSome_some, if_true] at hlisted
    rcases h.state with ⟨hsame, hsame'⟩ | ⟨hbefore, hdirectory, hbesides⟩
    · rw [hsame] at hold
      cases entry with
      | directory names =>
        refine Or.inr ⟨Or.inr (by rw [hold]; rfl), ?_, by rw [hlisted, hsame']⟩
        rw [hstate, kindOf_addName]
        rfl
      | file | link => exact Or.inl ⟨hstate.trans hold.symm, hlisted.trans hsame'⟩
    · rw [hold] at hdirectory
      refine Or.inr ⟨hbefore, ?_, by rw [hlisted, hbesides]⟩
      rw [hstate, kindOf_addName, hdirectory]

/-- Of two trees that have grown from one, each has grown from the other if it has
the directory of the store. -/
theorem of_common (h : Grown root m₀ m) (h' : Grown root m₀ m')
    (hstate : stateKey root ∈ m'.entries) : Grown root m m' := by
  rw [Std.TreeMap.mem_iff_isSome_getElem?] at hstate
  refine ⟨fun hkey hroot => (h'.others hkey hroot).trans (h.others hkey hroot).symm, ?_⟩
  rcases h.state with ⟨hsame, hsameRoot⟩ | ⟨hbefore, hdirectory, hbesides⟩
  · rw [hsame, hsameRoot]
    exact h'.state
  · refine Or.inr ⟨Or.inr hdirectory, ?_, ?_⟩
    · rcases h'.state with ⟨hsame', _⟩ | ⟨_, hdirectory', _⟩
      · rw [hsame'] at hstate ⊢
        refine hbefore.resolve_left fun hnone => ?_
        rw [hnone] at hstate
        cases hstate
      · exact hdirectory'
    · rw [hbesides]
      rcases h'.state with ⟨_, hsame'⟩ | ⟨_, _, hbesides'⟩
      · rw [hsame']
      · exact hbesides'

/-- What is not in the directory of the store stays as it is, but for the name of
this directory. -/
theorem besides (h : Grown root m m') {key : List String} (hkey : ¬ stateKey root <+: key) :
    m'.entries[key]?.map (besides ".depdag") = m.entries[key]?.map (besides ".depdag") := by
  by_cases hroot : key = rootKey root
  · subst hroot
    rcases h.state with ⟨_, hsame⟩ | ⟨_, _, hsame⟩
    · rw [hsame]
    · exact hsame
  · rw [h.others hkey hroot]

end Grown

/-- Entries that are the same but for a name that they list are the same, or directories. -/
theorem cases_of_besides {name : String} {entry entry' : Option MemoryEntry}
    (h : entry'.map (besides name) = entry.map (besides name)) :
    entry' = entry ∨ ∃ names names', entry = some (.directory names) ∧
      entry' = some (.directory names') := by
  rcases entry with _ | ⟨_⟩ | ⟨_⟩ | ⟨_⟩ <;> rcases entry' with _ | ⟨_⟩ | ⟨_⟩ | ⟨_⟩ <;>
    simp_all [MemoryFiles.besides]

theorem kindOf_of_besides {name : String} {entry entry' : Option MemoryEntry}
    (h : entry'.map (besides name) = entry.map (besides name)) : kindOf entry' = kindOf entry := by
  obtain rfl | ⟨_, _, rfl, rfl⟩ := cases_of_besides h <;> rfl

theorem content_of_besides {name : String} {p : Path}
    (h : (m'.find? p).map (besides name) = (m.find? p).map (besides name)) :
    m'.content p = m.content p := by
  unfold content
  obtain heq | ⟨_, _, hfind, hfind'⟩ := cases_of_besides h
  · rw [heq]
  · rw [hfind, hfind']

end Cascade.MemoryFiles
