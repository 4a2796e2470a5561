import Cascade.Files.Basic
import Cascade.Text.Utf8
import Std.Data.TreeMap

/-!
# Files in a tree with links

A tree of files as an operating system keeps it: links are followed on the
way, relative paths start at a working directory, and each operation fails
for one of a few reasons.

A place is the list of names that leads from the root to an entry without
any link.  The root itself is always a directory.
-/

namespace Cascade

/-- Why an operation on files fails. -/
inductive FileFault where
  | notFound
  | exists
  | notADirectory
  | isADirectory
  | notEmpty
  | tooManyLinks
deriving Repr, DecidableEq

namespace FileFault

/-- The text of a fault. -/
def text : FileFault → String
  | .notFound => "No such file or directory"
  | .exists => "File exists"
  | .notADirectory => "Not a directory"
  | .isADirectory => "Is a directory"
  | .notEmpty => "Directory not empty"
  | .tooManyLinks => "Too many levels of symbolic links"

/-- The number of a fault. -/
def number : FileFault → Nat
  | .notFound => 2
  | .exists => 17
  | .notADirectory => 20
  | .isADirectory => 21
  | .notEmpty => 39
  | .tooManyLinks => 40

/-- The text and the number of a fault. -/
def message (f : FileFault) : String := f.text ++ " (os error " ++ toString f.number ++ ")"

end FileFault

/-- An entry of a tree. -/
inductive TreeEntry where
  | file (content : ByteArray)
  | directory
  | link (target : String)

/-- A tree of files, and the place that relative paths start from. -/
structure TreeFiles where
  entries : Std.TreeMap (List String) TreeEntry
  current : List String

namespace TreeFiles

/-- The tree that holds the root alone. -/
def empty : TreeFiles := ⟨∅, []⟩

/-- The entry at a place. -/
def get? (t : TreeFiles) (place : List String) : Option TreeEntry :=
  if place.isEmpty then some .directory else t.entries[place]?

/-- Put an entry at a place. -/
def put (t : TreeFiles) (place : List String) (entry : TreeEntry) : TreeFiles :=
  { t with entries := t.entries.insert place entry }

/-- The names of a path.  A final slash asks for a directory, as a final dot
does. -/
def namesOf (path : String) : List String :=
  let names := (Path.mk path).segments.filter (· ≠ "")
  if path.toList.getLast? = some '/' then names ++ ["."] else names

/-! ## Finding entries -/

/-- How far names lead without following a link. -/
inductive Reached where
  | entry (place : List String)
  /-- All names but the last lead to a directory, which does not have it. -/
  | missing (directory : List String) (name : String)
  /-- A link that is left to follow before the names in `rest`. -/
  | link (directory : List String) (name target : String) (rest : List String)

/-- Follow names, but no links, from a place. -/
def walk (t : TreeFiles) : List String → List String → Except FileFault Reached
  | place, [] => .ok (.entry place)
  | place, name :: rest =>
    match t.get? place with
    | some .directory =>
      if name = "." then walk t place rest
      else if name = ".." then walk t place.dropLast rest
      else
        match t.get? (place ++ [name]) with
        | some (.link target) => .ok (.link place name target rest)
        | some _ => walk t (place ++ [name]) rest
        | none => if rest.isEmpty then .ok (.missing place name) else .error .notFound
    | some _ => .error .notADirectory
    | none => .error .notFound

/-- Where a path leads. -/
inductive Located where
  | present (place : List String)
  | absent (directory : List String) (name : String)

/-- Follow names and at most `links - 1` links.  A link at the end is
followed only if `followLast` holds. -/
def locateFrom (t : TreeFiles) (followLast : Bool) :
    Nat → List String → List String → Except FileFault Located
  | 0, _, _ => .error .tooManyLinks
  | links + 1, place, names =>
    match t.walk place names with
    | .error fault => .error fault
    | .ok (.entry place) => .ok (.present place)
    | .ok (.missing directory name) => .ok (.absent directory name)
    | .ok (.link directory name target rest) =>
      if rest.isEmpty && !followLast then .ok (.present (directory ++ [name]))
      else
        locateFrom t followLast links (if (Path.mk target).isAbsolute then [] else directory)
          (namesOf target ++ rest)

/-- Where a path leads, through at most forty links. -/
def locate (t : TreeFiles) (p : Path) (followLast : Bool) : Except FileFault Located :=
  if p.text.isEmpty then .error .notFound
  else t.locateFrom followLast 41 (if p.isAbsolute then [] else t.current) (namesOf p.text)

/-- The place of an entry and the entry. -/
def find (t : TreeFiles) (p : Path) (followLast : Bool) :
    Except FileFault (List String × TreeEntry) := do
  match ← t.locate p followLast with
  | .present place =>
    match t.get? place with
    | some entry => .ok (place, entry)
    | none => .error .notFound
  | .absent .. => .error .notFound

/-- The absolute path of a place. -/
def pathOf (place : List String) : Path := ⟨"/" ++ "/".intercalate place⟩

/-! ## Operations -/

/-- The content of a file. -/
def read (t : TreeFiles) (p : Path) : Except FileFault ByteArray := do
  match ← t.find p true with
  | (_, .file content) => .ok content
  | _ => .error .isADirectory

/-- Whether a path leads to a file. -/
def isFile (t : TreeFiles) (p : Path) : Bool := (t.read p).toOption.isSome

/-- Whether a path leads to a directory. -/
def isDirectory (t : TreeFiles) (p : Path) : Bool :=
  match t.find p true with
  | .ok (_, .directory) => true
  | _ => false

/-- Replace the content of a file, or make a new one.  `content` is told the
old content. -/
def overwrite (t : TreeFiles) (p : Path) (content : ByteArray → ByteArray) :
    Except FileFault TreeFiles := do
  match ← t.locate p true with
  | .present place =>
    match t.get? place with
    | some (.file old) => .ok (t.put place (.file (content old)))
    | _ => .error .isADirectory
  | .absent directory name => .ok (t.put (directory ++ [name]) (.file (content .empty)))

/-- Make an entry where there is none. -/
def create (t : TreeFiles) (p : Path) (entry : TreeEntry) : Except FileFault TreeFiles := do
  match ← t.locate p false with
  | .present _ => .error .exists
  | .absent directory name => .ok (t.put (directory ++ [name]) entry)

/-- Make a directory.  It is no fault if it is there already. -/
def makeDirectory (t : TreeFiles) (p : Path) : Except FileFault TreeFiles :=
  match t.create p .directory with
  | .ok t => .ok t
  | .error fault => if t.isDirectory p then .ok t else .error fault

/-- Make a directory and those above it, at most `depth` levels. -/
def createDirectories (t : TreeFiles) : Nat → Path → Except FileFault TreeFiles
  | 0, _ => .error .notFound
  | depth + 1, p =>
    if p.text.isEmpty then .ok t
    else
      match t.makeDirectory p with
      | .error .notFound =>
        match p.parent? with
        | some above => do (← t.createDirectories depth above).makeDirectory p
        | none => .error .notFound
      | result => result

/-- Make a directory and all those above it. -/
def makeDirectories (t : TreeFiles) (p : Path) : Except FileFault TreeFiles :=
  t.createDirectories (p.segments.length + 1) p

/-- The names and entries directly below a place, in the order of the
names. -/
def below (t : TreeFiles) (place : List String) : List (String × TreeEntry) :=
  t.entries.toList.filterMap fun (key, entry) =>
    match key.getLast? with
    | some name => if key.dropLast = place then some (name, entry) else none
    | none => none

/-- Remove an entry, with all that is below it if `whole` holds.  A
directory is only removed in this case. -/
def remove (t : TreeFiles) (p : Path) (whole : Bool) : Except FileFault TreeFiles := do
  match ← t.find p false with
  | (place, .directory) =>
    if whole then .ok { t with entries := t.entries.filter fun key _ => !place.isPrefixOf key }
    else .error .isADirectory
  | (place, _) => .ok { t with entries := t.entries.erase place }

/-- The kind that a listing reports. -/
def kindOf : TreeEntry → EntryKind
  | .file _ => .file
  | .directory => .directory
  | .link target => .link target

/-- The entries of a directory. -/
def list (t : TreeFiles) (p : Path) : Except FileFault (List DirEntry) := do
  match ← t.find p true with
  | (place, .directory) =>
    .ok ((t.below place).map fun (name, entry) => ⟨p.join name, kindOf entry⟩)
  | _ => .error .notADirectory

/-- A fault met while doing something with a path. -/
def failing {α : Type} (activity : String) (p : Path) (result : Except FileFault α) :
    Except Failure α :=
  result.mapError fun fault => .within (activity ++ " " ++ p.text) (.ofText fault.message)

/-- The text of a file. -/
def readText (t : TreeFiles) (p : Path) : Except Failure String := do
  match Text.decode (← failing "reading" p (t.read p)) with
  | .ok s => .ok s
  | .error _ =>
    .error (.within ("reading " ++ p.text) (.ofText "stream did not contain valid UTF-8"))

/-- Open a file.  A directory can be opened but not read. -/
def openFile (t : TreeFiles) (p : Path) : Except Failure Contents := do
  match ← failing "opening" p (t.find p true) with
  | (_, .file content) => .ok (.ok content)
  | _ => .ok (.error (.ofText FileFault.isADirectory.message))

/-- Replace a file, and make the directories above it. -/
def write (t : TreeFiles) (p : Path) (content : ByteArray) : Except Failure Unit × TreeFiles :=
  let above := match p.parent? with
    | some above => failing "creating directory" above (t.makeDirectories above)
    | none => .ok t
  match above with
  | .error failure => (.error failure, t)
  | .ok t =>
    match failing "writing" p (t.overwrite p fun _ => content) with
    | .error failure => (.error failure, t)
    | .ok t => (.ok (), t)

instance : FileSystem TreeFiles where
  readText := readText
  openFile := openFile
  write := write
  isFile := isFile
  canonical t p := failing "resolving" p ((t.find p true).map fun found => pathOf found.1)
  list t p := failing "listing directory" p (t.list p)
  -- the root is no entry of its own
  size t := t.entries.size + 1

end TreeFiles

end Cascade
