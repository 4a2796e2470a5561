import Cascade.Files.Basic
import Cascade.Text.Quoted
import Cascade.Text.Utf8
import Std.Data.TreeMap
import Std.Data.TreeSet

/-!
# Files in memory

A tree of files that lives in memory and finds its entries by the
components of their paths.  Directories above a new entry come into being
with it.  Links are listed but never followed.

A directory remembers the names of its entries, and looks up their kinds
when it is listed.
-/

namespace Cascade

/-- An entry of a tree in memory. -/
inductive MemoryEntry where
  | file (content : ByteArray)
  | directory (names : Std.TreeSet String)
  | link (target : String)

/-- Files in memory, by the components of their paths. -/
structure MemoryFiles where
  entries : Std.TreeMap (List String) MemoryEntry

namespace MemoryFiles

/-- The directory of the relative paths of one component. -/
def here : List String := ["."]

/-- The tree that holds that directory alone. -/
def empty : MemoryFiles :=
  ⟨(∅ : Std.TreeMap (List String) MemoryEntry).insert here (.directory ∅)⟩

/-- The entry at a path. -/
def find? (m : MemoryFiles) (p : Path) : Option MemoryEntry := m.entries[p.components]?

/-- Whether a component is a name, which its directory lists. -/
def isName (component : String) : Bool :=
  component ≠ "/" && component ≠ "." && component ≠ ".."

/-- The entry with a name added to a directory; any other entry stays as it
is. -/
def addName (name : String) : MemoryEntry → MemoryEntry
  | .directory names => if isName name then .directory (names.insert name) else .directory names
  | entry => entry

/-- Add an entry to the directory above it, and create that directory and
those above it as needed.  The components are listed backwards. -/
def linkUp : List String → MemoryFiles → MemoryFiles
  | [], m => m
  | name :: above, m =>
    let parent := if above.isEmpty then here else above.reverse
    if name = "/" || (above.isEmpty && name = ".") then m
    else
      match m.entries[parent]? with
      | some entry => ⟨m.entries.insert parent (addName name entry)⟩
      | none => linkUp above ⟨m.entries.insert parent (addName name (.directory ∅))⟩

/-- Put an entry at a path, in place of any other. -/
def put (m : MemoryFiles) (p : Path) (entry : MemoryEntry) : MemoryFiles :=
  linkUp p.components.reverse ⟨m.entries.insert p.components entry⟩

/-- Add a file. -/
def addFile (m : MemoryFiles) (p : Path) (content : ByteArray) : MemoryFiles :=
  m.put p (.file content)

/-- Add a link. -/
def addLink (m : MemoryFiles) (p : Path) (target : String) : MemoryFiles :=
  m.put p (.link target)

/-- Add a directory, unless the path has an entry. -/
def addDirectory (m : MemoryFiles) (p : Path) : MemoryFiles :=
  match m.find? p with
  | some _ => linkUp p.components.reverse m
  | none => m.put p (.directory ∅)

/-- No entry has this path. -/
def notFound (p : Path) : Failure := .ofText ("File not found: " ++ Text.quoted p.text)

/-- The entry at this path is no file. -/
def notAFile (p : Path) : Failure := .ofText ("Not a file: " ++ Text.quoted p.text)

/-- The content of a file. -/
def content (m : MemoryFiles) (p : Path) : Except Failure ByteArray :=
  match m.find? p with
  | some (.file content) => .ok content
  | some _ => .error (notAFile p)
  | none => .error (notFound p)

/-- The text of a file. -/
def readText (m : MemoryFiles) (p : Path) : Except Failure String := do
  match Text.decode (← m.content p) with
  | .ok s => .ok s
  | .error fault => .error (.ofText ("Invalid UTF-8: " ++ fault.message))

/-- Whether a path leads to a file. -/
def isFile (m : MemoryFiles) (p : Path) : Bool :=
  match m.find? p with
  | some (.file _) => true
  | _ => false

/-- The kind that a listing reports. -/
def kindOf : Option MemoryEntry → EntryKind
  | some (.directory _) => .directory
  | some (.link target) => .link target
  | _ => .file

/-- The entries of a directory, in the order of their names. -/
def list (m : MemoryFiles) (p : Path) : Except Failure (List DirEntry) :=
  match m.find? p with
  | some (.directory names) =>
    .ok (names.toList.map fun name =>
      let path := p.join name
      ⟨path, kindOf (m.find? path)⟩)
  | _ => .error (.ofText ("Not a directory or not found: " ++ Text.quoted p.text))

instance : FileSystem MemoryFiles where
  readText := readText
  openFile m p := (m.content p).map .ok
  write m p content := (.ok (), m.addFile p content)
  isFile := isFile
  canonical m p := if (m.find? p).isSome then .ok p else .error (notFound p)
  list := list
  size m := m.entries.size

end MemoryFiles

end Cascade
