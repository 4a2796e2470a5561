import Cascade.Files.Memory
import Cascade.Proofs.Failure

/-!
# File systems that read what was written

`LawfulFiles` is what stores rely upon: a text that was written is read, and
what could not be written has not changed what is read.  Files in memory are
lawful, and so are trees with links (`Cascade.Proofs.Files.Tree`).

A file that could not be written may still have got directories above it, and
then the reason why there is nothing to read may be another one.  So the law
speaks of the text of files only.
-/

namespace Cascade

/-- A file system that reads what was written. -/
class LawfulFiles (φ : Type) [FileSystem φ] : Prop where
  written {files files' : φ} {path : Path} {text : String} :
    FileSystem.write files path text.toUTF8 = (.ok (), files') →
      FileSystem.isFile files' path = true ∧ FileSystem.readText files' path = .ok text
  unwritten {files files' : φ} {path : Path} {content : ByteArray} {e : Failure} :
    FileSystem.write files path content = (.error e, files') →
      FileSystem.isFile files' path = FileSystem.isFile files path ∧
        (FileSystem.isFile files path = true →
          FileSystem.readText files' path = FileSystem.readText files path)

/-- A text is what its bytes stand for. -/
theorem Text.decode_toUTF8 (text : String) : decode text.toUTF8 = .ok text := by
  have hvalid : text.toUTF8.IsValidUTF8 := text.isValidUTF8
  have hdecoded : String.fromUTF8? text.toUTF8 = some text := by
    rw [String.fromUTF8?, dif_pos hvalid]
    rfl
  rw [decode, hdecoded]

namespace MemoryFiles

/-- The directory above an entry, from the components above it backwards. -/
def parentKey (above : List String) : List String :=
  if above.isEmpty then here else above.reverse

/-- Whether components, listed backwards, lead to an entry that is in no
directory. -/
def isTop : List String → Bool
  | [] => true
  | name :: above => name = "/" || (above.isEmpty && name = ".")

/-- Add a name to a directory, which is created as needed. -/
def enlist (name : String) (parent : List String) (m : MemoryFiles) : MemoryFiles :=
  ⟨m.entries.insert parent (addName name (m.entries[parent]?.getD (.directory ∅)))⟩

/-- Linking goes on as long as directories have to be created. -/
theorem linkUp_cons (name : String) (above : List String) (m : MemoryFiles) :
    linkUp (name :: above) m =
      if isTop (name :: above) then m
      else if parentKey above ∈ m.entries then enlist name (parentKey above) m
      else linkUp above (enlist name (parentKey above) m) := by
  have hparent : (if above.isEmpty then here else above.reverse) = parentKey above := rfl
  rw [linkUp]
  simp only [isTop, hparent, enlist, Std.TreeMap.mem_iff_isSome_getElem?]
  cases m.entries[parentKey above]? <;> simp

theorem getElem?_enlist (name : String) (parent : List String) (m : MemoryFiles)
    (key : List String) : (enlist name parent m).entries[key]? =
      if parent = key then
        some (addName name (m.entries[key]?.getD (.directory ∅)))
      else m.entries[key]? := by
  rw [enlist, Std.TreeMap.getElem?_insert]
  simp only [Std.compare_eq_iff_eq]
  split
  · rename_i h
    rw [h]
  · rfl

/-- What is linked to the directories above it leaves all other entries. -/
theorem entries_linkUp {key : List String} (path : List String) (m : MemoryFiles)
    (h : ∀ name above, name :: above <:+ path → parentKey above ≠ key) :
    (linkUp path m).entries[key]? = m.entries[key]? := by
  induction path generalizing m with
  | nil => rfl
  | cons name above ih =>
    have henlist : (enlist name (parentKey above) m).entries[key]? = m.entries[key]? := by
      rw [getElem?_enlist, if_neg (h name above List.suffix_rfl)]
    rw [linkUp_cons]
    split
    · rfl
    split
    · exact henlist
    · refine (ih _ fun name' above' hsuffix => ?_).trans henlist
      exact h name' above' (hsuffix.trans (List.suffix_cons ..))

/-- No directory above an entry is the entry, but for the one that is here. -/
theorem parentKey_ne {name : String} {above key : List String} (hne : key ≠ here)
    (h : name :: above <:+ key.reverse) : parentKey above ≠ key := by
  unfold parentKey
  split
  · exact Ne.symm hne
  · intro heq
    have hlength := h.length_le
    rw [← heq, List.length_reverse, List.length_reverse, List.length_cons] at hlength
    omega

/-- An entry that was put at a path is found there. -/
theorem find?_put (m : MemoryFiles) (path : Path) (entry : MemoryEntry) :
    (m.put path entry).find? path = some entry := by
  have hinserted : (m.entries.insert path.components entry)[path.components]? = some entry :=
    Std.TreeMap.getElem?_insert_self
  by_cases hhere : path.components = here
  · rw [hhere] at hinserted
    rw [put, find?, hhere]
    exact hinserted
  · rw [put, find?, entries_linkUp _ _ fun _ _ => parentKey_ne hhere]
    exact hinserted

/-- What has a content is a file. -/
theorem isFile_of_content {m : MemoryFiles} {path : Path} {content : ByteArray}
    (h : m.content path = .ok content) : m.isFile path = true := by
  unfold MemoryFiles.content at h
  unfold isFile
  cases hfind : m.find? path with
  | none =>
    rw [hfind] at h
    cases h
  | some entry =>
    rw [hfind] at h
    cases entry with
    | file => rfl
    | directory | link => cases h

/-- A text is read from its bytes. -/
theorem readText_of_content {m : MemoryFiles} {path : Path} {text : String}
    (h : m.content path = .ok text.toUTF8) : m.readText path = .ok text := by
  refine Failure.bind_eq_ok.mpr ⟨text.toUTF8, h, ?_⟩
  rw [Text.decode_toUTF8]

instance : LawfulFiles MemoryFiles where
  written {files files' path text} h := by
    cases h
    have hcontent : (files.put path (.file text.toUTF8)).content path = .ok text.toUTF8 := by
      rw [content, find?_put]
    exact ⟨isFile_of_content hcontent, readText_of_content hcontent⟩
  unwritten h := by cases h

end MemoryFiles

end Cascade
