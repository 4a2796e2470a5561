import Cascade.Shell.Expand
import Cascade.Shell.Utility.Text

/-!
# Utilities of the shell itself

What changes the state of the shell that runs it: its variables, its
arguments, its directory, or whether it goes on.
-/

namespace Cascade.Shell.Utility

/-- The number that a word spells. -/
def status? (word : String) : Option Nat :=
  if !word.isEmpty && word.toList.all Char.isDigit then some (Text.decimal word.toList) else none

/-- Report a word that should be a number, and stop. -/
def refuseNumber {α : Type} (program word : String) : Act α := do
  Act.complainAs (program ++ ": Illegal number: " ++ word)
  throw (.exit 2)

/-- The number that is the first operand, or another one. -/
def numberOr (program : String) (other : Nat) (words : List String) : Act Nat :=
  match words with
  | [] => return other
  | word :: _ =>
    match status? word with
    | some n => return n
    | none => refuseNumber program word

/-- End the shell. -/
def exit (words : List String) : Act Nat := do
  throw (.exit (← numberOr "exit" (← get).status words))

/-- End a function. -/
def returnFrom (words : List String) : Act Nat := do
  throw (.answer (← numberOr "return" (← get).status words))

/-- Leave loops, or go on with their next round.  Outside of loops nothing
happens. -/
def leave (again : Bool) (words : List String) : Act Nat := do
  let n ← numberOr (if again then "continue" else "break") 1 words
  let loops := (← get).loops
  if loops = 0 then return 0
  throw (.leave (min n loops) again)

/-- Drop the first arguments. -/
def shift (words : List String) : Act Nat := do
  let n ← numberOr "shift" 1 words
  if (← get).arguments.length < n then
    Act.complainAs "shift: can't shift that many"
    throw (.exit 2)
  modify fun m => { m with arguments := m.arguments.drop n }
  return 0

/-- Change options and arguments. -/
def set (words : List String) : Act Nat := do
  match words with
  | "--" :: arguments => modify fun m => { m with arguments }
  | word :: more =>
    match word.toList with
    | '-' :: letters =>
      modify fun m => { m with options := letters ++ m.options }
      if !more.isEmpty then
        modify fun m => { m with arguments := if more.head? = some "--" then more.tail else more }
    | '+' :: letters =>
      modify fun m => { m with options := m.options.filter (!letters.contains ·) }
    | _ => modify fun m => { m with arguments := words }
  | [] => pure ()
  return 0

/-- The name and the value of an assignment that was expanded. -/
def splitAssignment (word : String) : String × Option String :=
  let cs := word.toList
  let name := String.ofList (cs.takeWhile (· ≠ '='))
  match cs.dropWhile (· ≠ '=') with
  | _ :: value => (name, some (String.ofList value))
  | [] => (name, none)

/-- Make variables known to other programs. -/
def exportAll (words : List String) : Act Nat := do
  for word in words do
    let (name, value?) := splitAssignment word
    if !isName name then
      Act.complainAs ("export: " ++ name ++ ": bad variable name")
      throw (.exit 2)
    match value? with
    | some value => Act.assign name value
    | none => if (← Act.lookup? name).isNone then Act.assign name ""
    Act.exportVariable name
  return 0

/-- Forget variables. -/
def unset (words : List String) : Act Nat := do
  for name in words.filter (·.toList.head? ≠ some '-') do
    Act.unset name
  return 0

/-- Give values to variables that must not change.  They may change here. -/
def fix (words : List String) : Act Nat := do
  for word in words do
    let (name, value?) := splitAssignment word
    if let some value := value? then Act.assign name value
  return 0

/-- Hide variables for the rest of a function. -/
def hide (words : List String) : Act Nat := do
  for word in words do
    let (name, value?) := splitAssignment word
    let m ← get
    match m.locals with
    | none =>
      Act.complainAs "local: not in a function"
      throw (.exit 2)
    | some hidden => modify fun m => { m with locals := some ((name, m.bindings[name]?) :: hidden) }
    if let some value := value? then Act.assign name value
  return 0

/-- Keep a script for the end of the shell. -/
def trap (words : List String) : Act Nat := do
  match words with
  | script :: events =>
    if events.any fun event => event = "EXIT" || event = "0" then
      modify fun m => { m with farewell := if script = "-" then "" else script }
  | [] => pure ()
  return 0

/-- Go to another directory. -/
def cd (words : List String) : Act Nat := do
  let target := match words with
    | word :: _ => some word
    | [] => none
  let home ← Act.lookup? "HOME"
  let old ← Act.lookup? "OLDPWD"
  let path := match target with
    | some "-" => old.getD ""
    | some word => word
    | none => home.getD ""
  match (← get).files.find ⟨path⟩ true with
  | .ok (place, .directory) =>
    Act.assign "OLDPWD" (TreeFiles.pathOf (← get).files.current).text
    modify fun m => { m with files := { m.files with current := place } }
    Act.assign "PWD" (TreeFiles.pathOf place).text
    if target = some "-" then Act.print ((TreeFiles.pathOf place).text ++ "\n")
    return 0
  | _ =>
    Act.complainAs ("cd: can't cd to " ++ path)
    return 2

/-- Print the directory. -/
def pwd (_ : List String) : Act Nat := do
  Act.print ((TreeFiles.pathOf (← get).files.current).text ++ "\n")
  return 0

/-- Give the fields of a line to names.  The last name takes what is left. -/
def assignFields (separators : List Char) : List String → List Char → Act Unit
  | [], _ => return ()
  | [name], cs =>
    let isSeparator (c : Char) : Bool := separators.contains c
    Act.assign name (String.ofList (cs.reverse.dropWhile isSeparator).reverse)
  | name :: names, cs => do
    let isSeparator (c : Char) : Bool := separators.contains c
    Act.assign name (String.ofList (cs.takeWhile (!isSeparator ·)))
    assignFields separators names ((cs.dropWhile (!isSeparator ·)).dropWhile isSeparator)

/-- A line without the backslashes that protect the characters behind them. -/
def dropBackslashes : List Char → List Char
  | '\\' :: c :: rest => c :: dropBackslashes rest
  | c :: rest => c :: dropBackslashes rest
  | [] => []

/-- Read a line into variables. -/
def read (words : List String) : Act Nat := do
  let (options, names) := splitOptions words
  let (bytes, isWhole) ← Act.readLine 0
  let line := (textOfBytes bytes).toList
  let line := if options.contains 'r' then line else dropBackslashes line
  let separators ← separators
  assignFields separators names (line.dropWhile (separators.contains ·))
  return if isWhole then 0 else 1

/-- The signals by name. -/
def signals : List (String × Nat) :=
  [("HUP", 1), ("INT", 2), ("QUIT", 3), ("ILL", 4), ("TRAP", 5), ("ABRT", 6), ("BUS", 7),
    ("FPE", 8), ("KILL", 9), ("USR1", 10), ("SEGV", 11), ("USR2", 12), ("PIPE", 13),
    ("ALRM", 14), ("TERM", 15), ("CHLD", 17), ("CONT", 18), ("URG", 23), ("WINCH", 28)]

/-- The signal that a word names, by name or number. -/
def signal? (word : String) : Option Nat :=
  let name := if word.startsWith "SIG" then String.ofList (word.toList.drop 3) else word
  (signals.lookup name).orElse fun _ => status? word

/-- The signals that a process passes over unless it cares about them. -/
def harmlessSignals : List Nat := [0, 17, 18, 23, 28]

/-- Send a signal.  The shell itself is the only process to send one to. -/
def kill (words : List String) : Act Nat := do
  let (signal?, targets) := match words with
    | "-s" :: name :: targets => (signal? name, targets)
    | word :: targets =>
      match word.toList with
      | '-' :: name => (signal? (String.ofList name), targets)
      | _ => (some 15, words)
    | [] => (some 15, [])
  match signal? with
  | none =>
    Act.complainAs "kill: Illegal option"
    return 2
  | some signal =>
    if targets.contains (toString ownNumber) then
      if harmlessSignals.contains signal then return 0
      throw (.killed signal)
    Act.complainAs "kill: No such process"
    return 1

end Cascade.Shell.Utility
