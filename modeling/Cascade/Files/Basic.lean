import Cascade.Error
import Cascade.Files.Path

/-!
# Files

What the tool asks of a file system.  A listing reports links with their
targets and never follows them.
-/

namespace Cascade

/-- What an entry of a directory is. -/
inductive EntryKind where
  | file
  | directory
  | link (target : String)
deriving Repr, DecidableEq

/-- An entry of a directory listing. -/
structure DirEntry where
  path : Path
  kind : EntryKind
deriving Repr, DecidableEq

/-- The last component of an entry. -/
def DirEntry.name (e : DirEntry) : String := e.path.fileName?.getD ""

/-- What reading an open file gives: its bytes, or why it cannot be read. -/
abbrev Contents := Except Failure ByteArray

/-- A file system of type `φ`.  Every operation may fail with a reason. -/
class FileSystem (φ : Type) where
  /-- The text of a file. -/
  readText : φ → Path → Except Failure String
  /-- Open a file for reading. -/
  openFile : φ → Path → Except Failure Contents
  /-- Replace a file, and create the directories above it as needed. -/
  write : φ → Path → ByteArray → Except Failure Unit × φ
  /-- Whether a path leads to a regular file. -/
  isFile : φ → Path → Bool
  /-- The spelling that all paths to one entry share. -/
  canonical : φ → Path → Except Failure Path
  /-- The entries of a directory in the order of their names. -/
  list : φ → Path → Except Failure (List DirEntry)
  /-- How many entries there are. -/
  size : φ → Nat

/-- More levels of directories than any file system has.  What enters one
directory after another is bounded by it. -/
def FileSystem.levels : Nat := 4294967296

end Cascade
