import Cascade.Digest.Blake3
import Cascade.Digest.Exclusion
import Cascade.Files.Basic
import Cascade.Text.Quoted

/-!
# The digest of a directory

The digest covers the files and links below a directory that count as
content, in the order of their relative paths: the content of a file, the
target of a link.  Links are not followed, and empty directories leave no
trace.

`directoryMessage` is the text that is hashed; it holds the hashes of the
files.
-/

namespace Cascade.Digest

variable {φ : Type} [FileSystem φ]

/-- The hash of a file. -/
def fileHash (files : φ) (path : Path) : Except Failure String :=
  match FileSystem.openFile files path with
  | .error f => .error (f.within ("opening file for hashing: " ++ Text.quoted path.text))
  | .ok contents => contents.map fun bytes => Blake3.hexHash bytes.data.toList

/-- A text with slashes for backslashes. -/
def slashed (text : String) : String := text.map fun c => if c = '\\' then '/' else c

/-- The path of an entry below `root`, with slashes for backslashes. -/
def relativeTo (root path : Path) : String := slashed ((path.below? root).getD path.text)

/-- What is wrong when directories lie too many levels deep. -/
def tooDeep (directory : Path) : Failure :=
  .ofText ("too many levels of directories: " ++ Text.quoted directory.text)

/-- The files and links below `directory` that count, each with its path
relative to `root`.  Directories are entered if `recursive` holds, at most
`depth` levels deep; those that do not count are not even listed. -/
def collect (files : φ) (root : Path) (exclusion : Exclusion) (recursive : Bool) :
    Nat → Path → Except Failure (List (String × DirEntry))
  | 0, directory => .error (tooDeep directory)
  | depth + 1, directory => do
    let found ← (← FileSystem.list files directory).mapM fun entry =>
      let relative := relativeTo root entry.path
      let isDirectory := decide (entry.kind = .directory)
      if exclusion.excludes relative entry.name isDirectory then .ok []
      else if isDirectory then
        if recursive then collect files root exclusion recursive depth entry.path else .ok []
      else .ok [(relative, entry)]
    return found.flatten

/-- How many levels of directories are entered.  None of them lies below itself, so
that the entries of the file system bound their number. -/
def levels (files : φ) : Nat := FileSystem.levels + FileSystem.size files

/-- The files and links below `root` that count, each with its relative path. -/
def counted (files : φ) (root : Path) (exclusion : Exclusion) (recursive : Bool) :
    Except Failure (List (String × DirEntry)) :=
  collect files root exclusion recursive (levels files) root

/-- What one file or link adds to the text that is hashed. -/
def record (files : φ) (found : String × DirEntry) : Except Failure (List UInt8) := do
  let content ← match found.2.kind with
    | .link target => pure ("link:" ++ target)
    | _ => fileHash files found.2.path
  return found.1.toUTF8.data.toList ++ [0] ++ content.toUTF8.data.toList ++ ['\n'.toUInt8]

/-- The text that stands for a directory. -/
def directoryMessage (files : φ) (root : Path) (exclusion : Exclusion) (recursive : Bool) :
    Except Failure (List UInt8) := do
  let found ← counted files root exclusion recursive
  let records ← (found.mergeSort fun a b => !decide (b.1 < a.1)).mapM (record files)
  return records.flatten

/-- The digest of a directory. -/
def directoryHash (files : φ) (root : Path) (exclusion : Exclusion) (recursive : Bool) :
    Except Failure String :=
  Blake3.hexHash <$> directoryMessage files root exclusion recursive

end Cascade.Digest
