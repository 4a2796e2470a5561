import Cascade.Files.Tree
import Cascade.Shell.Syntax

/-!
# The state of a shell

A shell works on a tree of files.  It has variables, functions, arguments
and numbered descriptors, each of which leads to a stream.  What is written
to a stream is kept in a sink until someone asks for it, and what is read
comes from a source.

An `Act` is a computation on that state that may stop early: at the end of
the shell, of a function or of a loop.  An act that stops keeps what it did.
-/

namespace Cascade.Shell

/-- A variable; an exported one is known to other programs. -/
structure Variable where
  value : String
  exported : Bool
deriving Repr, DecidableEq

/-- Where a descriptor leads. -/
inductive Stream where
  /-- Empty to read, and forgets what is written. -/
  | null
  | sink (n : Nat)
  | source (n : Nat)
  /-- Writes to the end of a file. -/
  | file (place : List String)
deriving Repr, DecidableEq

/-- The state of a shell. -/
structure Machine where
  files : TreeFiles
  bindings : Std.TreeMap String Variable
  functions : List (String × Command)
  arguments : List String
  /-- How the last command ended. -/
  status : Nat
  descriptors : List (Nat × Stream)
  sinks : Array ByteArray
  sources : Array (List UInt8)
  /-- The line of the command that runs. -/
  line : Nat
  /-- The letters of the options that are set. -/
  options : List Char
  /-- Whether it is asked if the command that runs succeeds. -/
  isTested : Bool
  /-- The number of loops around the command that runs. -/
  loops : Nat
  /-- Within a function, its local variables with what they hid. -/
  locals : Option (List (String × Option Variable))
  /-- The script to run at the end. -/
  farewell : String

/-- Why an act stops. -/
inductive Stop where
  | exit (status : Nat)
  | killed (signal : Nat)
  | answer (status : Nat)
  /-- Leave some loops, and go on with the next round of the last if `again`
  holds. -/
  | leave (loops : Nat) (again : Bool)
  /-- It does not end within the bounds of the evaluation. -/
  | endless
deriving Repr, DecidableEq

/-- A computation on the state of a shell that may stop. -/
abbrev Act (α : Type) := ExceptT Stop (StateM Machine) α

namespace Act

variable {α : Type}

/-- Run an act that may stop, and go on with what came of it. -/
def attempt (a : Act α) : Act (Except Stop α) := ExceptT.mk do return .ok (← a.run)

/-- Repeat an act at most `rounds` times.  The act is given what its last
round answered, and answers nothing to end the repetition. -/
def iterate (a : α → Act (Option α)) (rounds : Nat) (first : α) : Act α :=
  ExceptT.mk fun m => go rounds first m
where
  /-- The rounds from a state on. -/
  go : Nat → α → Machine → Except Stop α × Machine
    | 0, _, m => (.error .endless, m)
    | rounds + 1, x, m =>
      match (a x).run.run m with
      | (.ok (some x), m) => go rounds x m
      | (.ok none, m) => (.ok x, m)
      | (.error stop, m) => (.error stop, m)

/-- Go on with the result of an act: stop if it stopped. -/
def ofResult (result : Except Stop α) : Act α := ExceptT.mk (pure result)

/-! ## Variables -/

/-- The value of a variable. -/
def lookup? (name : String) : Act (Option String) :=
  return (← get).bindings[name]?.map (·.value)

/-- Give a variable a value. -/
def assign (name value : String) : Act Unit :=
  modify fun m =>
    let exported := (m.bindings[name]?.map (·.exported)).getD false
    { m with bindings := m.bindings.insert name ⟨value, exported⟩ }

/-- Make a variable known to other programs. -/
def exportVariable (name : String) : Act Unit :=
  modify fun m =>
    { m with bindings := m.bindings.alter name (·.map fun v => { v with exported := true }) }

/-- Forget a variable. -/
def unset (name : String) : Act Unit :=
  modify fun m => { m with bindings := m.bindings.erase name }

/-- The variables that other programs know, in the order of their names. -/
def environment : Act (List (String × String)) := do
  return (← get).bindings.toList.filterMap fun (name, v) =>
    if v.exported then some (name, v.value) else none

/-! ## Streams -/

/-- The stream of a descriptor. -/
def stream? (descriptor : Nat) : Act (Option Stream) :=
  return (← get).descriptors.lookup descriptor

/-- Let a descriptor lead to a stream, or nowhere. -/
def point (descriptor : Nat) (stream? : Option Stream) : Act Unit :=
  modify fun m =>
    let others := m.descriptors.filter (·.1 ≠ descriptor)
    { m with descriptors := (stream?.map fun s => (descriptor, s)).toList ++ others }

/-- A new sink. -/
def openSink : Act Nat := modifyGet fun m =>
  (m.sinks.size, { m with sinks := m.sinks.push .empty })

/-- A new source. -/
def openSource (bytes : List UInt8) : Act Nat := modifyGet fun m =>
  (m.sources.size, { m with sources := m.sources.push bytes })

/-- Take what was written to a sink. -/
def drain (n : Nat) : Act ByteArray := modifyGet fun m =>
  (m.sinks.getD n .empty, { m with sinks := m.sinks.setIfInBounds n .empty })

/-- Write to a descriptor. -/
def write (descriptor : Nat) (bytes : ByteArray) : Act Unit := do
  match ← stream? descriptor with
  | some (.sink n) => modify fun m => { m with sinks := m.sinks.modify n (· ++ bytes) }
  | some (.file place) =>
    modify fun m =>
      match m.files.get? place with
      | some (.file old) => { m with files := m.files.put place (.file (old ++ bytes)) }
      | _ => m
  | _ => return ()

/-- Write a text to the output. -/
def print (s : String) : Act Unit := write 1 s.toUTF8

/-- Write a line to the error output. -/
def complain (s : String) : Act Unit := write 2 (s ++ "\n").toUTF8

/-- Complain in the shell's own name. -/
def complainAs (s : String) : Act Unit := do
  complain ("sh: " ++ toString (← get).line ++ ": " ++ s)

/-- All that is left to read from a descriptor. -/
def readAll (descriptor : Nat) : Act (List UInt8) := do
  match ← stream? descriptor with
  | some (.source n) => modifyGet fun m =>
    (m.sources.getD n [], { m with sources := m.sources.setIfInBounds n [] })
  | _ => return []

/-- The next line of a descriptor without its newline, and whether it has
one. -/
def readLine (descriptor : Nat) : Act (List UInt8 × Bool) := do
  match ← stream? descriptor with
  | some (.source n) => modifyGet fun m =>
    let bytes := m.sources.getD n []
    let line := bytes.takeWhile (· ≠ 0x0A)
    let rest := bytes.dropWhile (· ≠ 0x0A)
    ((line, !rest.isEmpty), { m with sources := m.sources.setIfInBounds n rest.tail })
  | _ => return ([], false)

/-- Run an act whose descriptors go back to where they led before. -/
def keepingDescriptors (a : Act α) : Act α := do
  let saved := (← get).descriptors
  let result ← a.attempt
  modify fun m => { m with descriptors := saved }
  ofResult result

/-- Run an act in a shell of its own, which shares the files and streams but
nothing else, and answer its status. -/
def inSubshell (a : Act Nat) : Act Nat := do
  let saved ← get
  modify fun m => { m with farewell := "" }
  let result ← a.attempt
  modify fun m =>
    { m with
      bindings := saved.bindings
      functions := saved.functions
      arguments := saved.arguments
      descriptors := saved.descriptors
      options := saved.options
      isTested := saved.isTested
      loops := saved.loops
      locals := saved.locals
      farewell := saved.farewell
      files := { m.files with current := saved.files.current } }
  match result with
  | .ok status | .error (.exit status) | .error (.answer status) => return status % 256
  | .error (.leave ..) => return 0
  | .error stop => throw stop

/-- Run an act within one more loop. -/
def inLoop (a : Act α) : Act α := do
  modify fun m => { m with loops := m.loops + 1 }
  let result ← a.attempt
  modify fun m => { m with loops := m.loops - 1 }
  ofResult result

/-- Run an act whose success is asked for. -/
def tested (a : Act α) : Act α := do
  let saved := (← get).isTested
  modify fun m => { m with isTested := true }
  let result ← a.attempt
  modify fun m => { m with isTested := saved }
  ofResult result

/-- Run an act in a shell of its own, and answer what it writes. -/
def capture (a : Act Nat) : Act (Nat × ByteArray) := do
  let n ← openSink
  let status ← inSubshell do
    point 1 (some (.sink n))
    a
  return (status, ← drain n)

end Act

end Cascade.Shell
