import Cascade.Files.Basic
import Cascade.Log
import Cascade.Store.Codec

/-!
# The store of hashes

A store remembers one hash for each dependency.  It lives in memory, or in
a file of the project that is read and written whole by every operation.
`Stored` is a store together with the files that it may use.
-/

namespace Cascade

/-- Where hashes are kept: in memory, or below the root of a project. -/
inductive Store where
  | memory (hashes : Dictionary)
  | file (root : Path)

namespace Store

variable {φ : Type} [FileSystem φ]

/-- The path of the file, from the root of a project. -/
def filePath (root : Path) : Path := root.join ".depdag/cache"

/-- The store that a mode asks for. -/
def «open» (mode : Mode) (root : Path) : Store :=
  match mode with
  | .file => .file root
  | .memory => .memory ∅

/-- The mode of a store. -/
def mode : Store → Mode
  | .memory _ => .memory
  | .file _ => .file

/-- All hashes.  A missing file holds none. -/
def all (s : Store) (files : φ) : Except Failure Dictionary :=
  match s with
  | .memory hashes => .ok hashes
  | .file root =>
    if FileSystem.isFile files (filePath root) then
      parse <$> FileSystem.readText files (filePath root)
    else .ok ∅

/-- The hash of an ID. -/
def load (s : Store) (files : φ) (id : String) : Except Failure (Option String) :=
  (·[id]?) <$> s.all files

end Store

/-- Files, and a store that may use them. -/
structure Stored (φ : Type) where
  files : φ
  store : Store

namespace Stored

variable {φ : Type} [FileSystem φ]

/-- Replace all hashes. -/
def replace (s : Stored φ) (hashes : Dictionary) : Except Failure Unit × Stored φ :=
  match s.store with
  | .memory _ => (.ok (), { s with store := .memory hashes })
  | .file root =>
    let (result, files) :=
      FileSystem.write s.files (Store.filePath root) (Store.render hashes).toUTF8
    (result, { s with files })

/-- Change all hashes.  `f` answers `none` to leave them as they are. -/
def update (s : Stored φ) (f : Dictionary → Option Dictionary) :
    Except Failure Unit × Stored φ :=
  match s.store.all s.files with
  | .error e => (.error e, s)
  | .ok hashes =>
    match f hashes with
    | some hashes => s.replace hashes
    | none => (.ok (), s)

/-- Remember a hash. -/
def save (s : Stored φ) (id hash : String) : Except Failure Unit × Stored φ :=
  s.update fun hashes => some (hashes.insert id hash)

/-- Forget the hash of an ID. -/
def remove (s : Stored φ) (id : String) : Except Failure Unit × Stored φ :=
  s.update fun hashes => if hashes.contains id then some (hashes.erase id) else none

/-- The hashes of some IDs alone. -/
def restrict (hashes : Dictionary) (ids : List String) : Dictionary :=
  hashes.filter fun id _ => ids.contains id

/-- What is logged when hashes are dropped. -/
def droppedEntry (mode : Store.Mode) (count : Nat) : Log.Entry :=
  let place := match mode with
    | .file => "file"
    | .memory => "memory"
  .info .store ("pruned stale dependency hashes (" ++ place ++ ")") [.count "removed" count]

/-- Forget all hashes but those of some IDs.  The answer is what there is to
log. -/
def prune (s : Stored φ) (ids : List String) : Except Failure (List Log.Entry) × Stored φ :=
  match s.store.all s.files with
  | .error e => (.error e, s)
  | .ok hashes =>
    let kept := restrict hashes ids
    if kept.size < hashes.size then
      let (result, s) := s.replace kept
      (result.map fun _ => [droppedEntry s.store.mode (hashes.size - kept.size)], s)
    else (.ok [], s)

end Stored

end Cascade
