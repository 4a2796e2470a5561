import Cascade.Proofs.Files.Lawful
import Cascade.Proofs.Store.Codec
import Cascade.Proofs.Store.Entries

/-!
# Stores of both modes

A store in memory takes everything.  A store in a file of a lawful file system
takes what a line can hold, and of what it takes it forgets nothing.
-/

namespace Cascade.Stored

variable {φ : Type} [FileSystem φ]

/-! ## Stores in files -/

/-- A store in the file below a root, which can be read if it is there. -/
def InFile (root : Path) (s : Stored φ) : Prop :=
  s.store = .file root ∧ ∃ hashes, s.store.all s.files = .ok hashes

theorem legal_of_inFile {root : Path} {s : Stored φ} (hs : s.InFile root) {hashes : Dictionary}
    (hall : s.store.all s.files = .ok hashes) {id hash : String} (h : hashes[id]? = some hash) :
    Store.Legal id hash := by
  rw [hs.1, Store.all] at hall
  split at hall
  · cases hread : FileSystem.readText s.files (Store.filePath root) with
    | error e =>
      rw [hread] at hall
      cases hall
    | ok text =>
      rw [hread] at hall
      cases hall
      exact Store.legal_of_parse h
  · cases hall
    simp at h

theorem replace_of_file {root : Path} {s : Stored φ} (hs : s.store = .file root)
    (hashes : Dictionary) : s.replace hashes =
      ((FileSystem.write s.files (Store.filePath root) (Store.render hashes).toUTF8).1,
        ⟨(FileSystem.write s.files (Store.filePath root) (Store.render hashes).toUTF8).2,
          .file root⟩) := by
  unfold replace
  rw [hs]

/-- After all hashes were replaced, what was written is read, or what was read before. -/
theorem all_replace_of_file [LawfulFiles φ] {root : Path} {s : Stored φ}
    (hs : s.store = .file root) (hashes : Dictionary) :
    (s.replace hashes).2.store.all (s.replace hashes).2.files =
      if (s.replace hashes).1.isOk then .ok (Store.parse (Store.render hashes))
      else s.store.all s.files := by
  rw [replace_of_file hs]
  rcases hwrite : FileSystem.write s.files (Store.filePath root)
    (Store.render hashes).toUTF8 with ⟨result, files⟩
  cases result with
  | error e =>
    obtain ⟨hisFile, hread⟩ := LawfulFiles.unwritten hwrite
    change (Store.file root).all files = s.store.all s.files
    rw [hs, Store.all, Store.all, hisFile]
    split
    · rename_i hfile
      rw [hread hfile]
    · rfl
  | ok _ =>
    obtain ⟨hisFile, hread⟩ := LawfulFiles.written hwrite
    change (Store.file root).all files = .ok (Store.parse (Store.render hashes))
    rw [Store.all, hisFile, hread]
    rfl

/-- A store in a file can be read whatever it was told to remember. -/
theorem inFile_replace [LawfulFiles φ] {root : Path} {s : Stored φ} (hs : s.InFile root)
    (hashes : Dictionary) : (s.replace hashes).2.InFile root := by
  obtain ⟨hstore, old, hold⟩ := hs
  have hall := all_replace_of_file hstore hashes
  refine ⟨by rw [replace_of_file hstore], ?_⟩
  split at hall
  · exact ⟨_, hall⟩
  · exact ⟨old, hall.trans hold⟩

/-- Stores in files keep what a line can hold. -/
theorem keeping_inFile [LawfulFiles φ] (root : Path) :
    Keeping (InFile (φ := φ) root) Store.Legal where
  readable hs := by
    obtain ⟨hashes, hall⟩ := hs.2
    exact ⟨hashes, hall, fun _ _ h => legal_of_inFile hs hall h⟩
  replace {s hashes} hs hlegal := by
    refine ⟨inFile_replace hs hashes, ?_⟩
    obtain ⟨hstore, old, hold⟩ := hs
    have hall := all_replace_of_file hstore hashes
    split at hall
    · rename_i hok
      rw [if_pos hok, entry_of_all hall]
      funext id
      exact Store.getElem?_parse_render hlegal id
    · rename_i herror
      rw [if_neg herror, entry_of_all (hall.trans hold), entry_of_all hold]

/-! ## Both modes -/

/-- A store of a mode, below a root if it is in a file. -/
def Held (mode : Store.Mode) (root : Path) (s : Stored φ) : Prop :=
  match mode with
  | .memory => s.InMemory
  | .file => s.InFile root

/-- The IDs that a store of a mode can keep. -/
def Keeps (mode : Store.Mode) (id : String) : Prop :=
  match mode with
  | .memory => True
  | .file => Store.IsKey id

/-- What a store of a mode can keep. -/
def Storable (mode : Store.Mode) (id hash : String) : Prop :=
  match mode with
  | .memory => True
  | .file => Store.Legal id hash

/-- Stores of both modes keep what they can. -/
theorem keeping_held [LawfulFiles φ] (mode : Store.Mode) (root : Path) :
    Keeping (Held (φ := φ) mode root) (Storable mode) :=
  match mode with
  | .memory => keeping_inMemory
  | .file => keeping_inFile root

end Cascade.Stored
