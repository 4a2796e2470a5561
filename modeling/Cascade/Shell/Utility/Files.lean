import Cascade.Shell.Utility.Text

/-!
# Utilities for files

Programs that make, remove, copy and list files.  Each reports the faults
that it meets, goes on with its other operands, and answers a status other
than zero if there were any.
-/

namespace Cascade.Shell.Utility

/-- Report a fault in the name of a program. -/
def report (program what : String) (fault : FileFault) : Act Nat := do
  Act.complain (program ++ ": " ++ what ++ ": " ++ fault.text)
  return 1

/-- A name between quotes, as programs show it. -/
def shown (name : String) : String := "'" ++ name ++ "'"

/-- Change the files, or report why that fails. -/
def change (program what : String) (f : TreeFiles → Except FileFault TreeFiles) : Act Nat := do
  match f (← get).files with
  | .ok files =>
    modify fun m => { m with files }
    return 0
  | .error fault => report program what fault

/-- Do something with each operand, and answer the gravest status. -/
def forAll (operands : List String) (f : String → Act Nat) : Act Nat := do
  let statuses ← operands.mapM f
  return statuses.foldl max 0

/-- Report that a program needs an operand of some kind. -/
def missingOperand (program : String) (kind : String) : Act Nat := do
  Act.complain (program ++ ": missing " ++ kind)
  Act.complain ("Try '" ++ program ++ " --help' for more information.")
  return 1

/-- Make files that are not there. -/
def touch (words : List String) : Act Nat := do
  let (options, files) := splitOptions words
  if files.isEmpty then return ← missingOperand "touch" "file operand"
  forAll files fun file => do
    let isThere := ((← get).files.find ⟨file⟩ true).toOption.isSome
    if isThere || options.contains 'c' then return 0
    change "touch" ("cannot touch " ++ shown file) (·.overwrite ⟨file⟩ id)

/-- Remove files, and directories with all that is in them if asked to. -/
def rm (words : List String) : Act Nat := do
  let (options, files) := splitOptions words
  let isForced := options.contains 'f'
  let isWhole := options.contains 'r' || options.contains 'R'
  if files.isEmpty then return ← if isForced then return 0 else missingOperand "rm" "operand"
  forAll files fun file => do
    match (← get).files.find ⟨file⟩ false with
    | .error .notFound | .error .notADirectory => if isForced then return 0 else pure ()
    | _ => pure ()
    change "rm" ("cannot remove " ++ shown file) (·.remove ⟨file⟩ isWhole)

/-- Remove empty directories. -/
def rmdir (words : List String) : Act Nat := do
  let (_, directories) := splitOptions words
  if directories.isEmpty then return ← missingOperand "rmdir" "operand"
  forAll directories fun directory =>
    change "rmdir" ("failed to remove " ++ shown directory) fun files => do
      if (← files.list ⟨directory⟩).isEmpty then files.remove ⟨directory⟩ true
      else .error .notEmpty

/-- Make directories, and those above them if asked to. -/
def mkdir (words : List String) : Act Nat := do
  let (options, directories) := splitOptions words
  if directories.isEmpty then return ← missingOperand "mkdir" "operand"
  forAll directories fun directory =>
    change "mkdir" ("cannot create directory " ++ shown directory) fun files =>
      if options.contains 'p' then files.makeDirectories ⟨directory⟩
      else files.create ⟨directory⟩ .directory

/-- Where something ends up that is copied or moved to a place: in it if it
is a directory. -/
def targetOf (files : TreeFiles) (source target : String) : Path :=
  if files.isDirectory ⟨target⟩ then
    Path.join ⟨target⟩ (((Path.mk source).segments.filter (· ≠ "")).getLastD "")
  else ⟨target⟩

/-- The operands of a program that takes sources and a target. -/
def withTarget (program : String) (operands : List String) (f : String → String → Act Nat) :
    Act Nat := do
  match operands.reverse with
  | target :: source :: more => forAll (source :: more).reverse fun s => f s target
  | _ => missingOperand program "file operand"

/-- Do something with a source that has to be there. -/
def withSource (program source : String) (act : Act Nat) : Act Nat := do
  match (← get).files.find ⟨source⟩ false with
  | .ok _ => act
  | .error fault => report program ("cannot stat " ++ shown source) fault

/-- Copy files. -/
def cp (words : List String) : Act Nat := do
  withTarget "cp" (splitOptions words).2 fun source target => withSource "cp" source <|
    change "cp" ("cannot copy " ++ shown source) fun files => do
      let content ← files.read ⟨source⟩
      files.overwrite (targetOf files source target) fun _ => content

/-- Move a file or a directory to another path. -/
def moveEntry (files : TreeFiles) (source : Path) (target : Path) :
    Except FileFault TreeFiles := do
  let (place, entry) ← files.find source false
  let below := files.entries.toList.filter fun (key, _) =>
    place.isPrefixOf key && key ≠ place
  let cleared := match files.find target false with
    | .ok (_, .directory) | .error _ => files
    | .ok _ => (files.remove target false).toOption.getD files
  let moved ← (← cleared.remove source true).create target entry
  let (home, _) ← moved.find target false
  return below.foldl (fun files (key, e) => files.put (home ++ key.drop place.length) e) moved

/-- Move files and directories. -/
def mv (words : List String) : Act Nat := do
  withTarget "mv" (splitOptions words).2 fun source target => withSource "mv" source <|
    change "mv" ("cannot move " ++ shown source) fun files =>
      moveEntry files ⟨source⟩ (targetOf files source target)

/-- Make links. -/
def ln (words : List String) : Act Nat := do
  let (options, operands) := splitOptions words
  withTarget "ln" operands fun source target =>
    change "ln" ("failed to create link " ++ shown target) fun files => do
      let path := targetOf files source target
      if options.contains 's' then files.create path (.link source)
      else files.create path (.file (← files.read ⟨source⟩))

/-- List the names in directories. -/
def ls (words : List String) : Act Nat := do
  let (options, operands) := splitOptions words
  forAll (if operands.isEmpty then ["."] else operands) fun operand => do
    let files := (← get).files
    match files.list ⟨operand⟩ with
    | .ok entries =>
      let listed := (entries.map (·.name)).filter fun name =>
        options.contains 'a' || options.contains 'A' || name.toList.head? ≠ some '.'
      let names := if options.contains 'a' then "." :: ".." :: listed else listed
      Act.print (String.join (names.map (· ++ "\n")))
      return 0
    | .error .notADirectory =>
      Act.print (operand ++ "\n")
      return 0
    | .error fault => do
      discard (report "ls" ("cannot access " ++ shown operand) fault)
      return 2

end Cascade.Shell.Utility
