import Cascade.Run.World
import Cascade.Shell.Run

/-!
# Scripts

The actions, commands and hooks of a project are scripts, run by a shell in
some directory and with some environment.  `Runner` stands for such a shell;
`Runner.shell` is the one of this library.

Some scripts write to the project's own output, which is kept in a
`Console`.
-/

namespace Cascade.Script

/-- A script to run.  Of two values for one name in the environment the later
one counts. -/
structure Call where
  script : String
  directory : Path
  environment : List (String × String)
deriving Repr

/-- What came of a script. -/
structure Ended where
  outcome : Shell.Outcome
  output : ByteArray
  errors : ByteArray

/-- A shell on files of type `φ`.  A script may fail to start. -/
abbrev Runner (φ : Type) := Call → φ → Except Failure Ended × φ

/-- The exit status of a script as it is reported; a signal has none. -/
def Ended.code (e : Ended) : Int :=
  match e.outcome with
  | .exited n => n
  | .killed _ => -1

/-- Whether a text can be handed to another program. -/
def isPassable (s : String) : Bool := !s.toList.contains '\x00'

/-- Whether all texts of a call can be handed to another program. -/
def Call.isPassable (c : Call) : Bool :=
  Script.isPassable c.script && Script.isPassable c.directory.text &&
    c.environment.all fun (name, value) => Script.isPassable name && Script.isPassable value

/-- The shell of this library. -/
def Runner.shell : Runner TreeFiles := fun call files =>
  if !call.isPassable then (.error (.ofText "nul byte found in provided data"), files)
  else
    match files.find call.directory true with
    | .ok (place, .directory) =>
      let r := Shell.run files place call.environment call.script
      (.ok ⟨r.outcome, r.output, r.errors⟩, r.files)
    | .ok _ => (.error (.ofText FileFault.notADirectory.message), files)
    | .error fault => (.error (.ofText fault.message), files)

/-! ## The console -/

/-- What a project has written to its own output, and to its error output
behind how many entries of the log. -/
structure Console where
  output : ByteArray
  errors : List (Nat × ByteArray)

namespace Console

/-- A console to which nothing was written. -/
def empty : Console := ⟨.empty, []⟩

/-- Write a text. -/
def print (c : Console) (s : String) : Console := { c with output := c.output ++ s.toUTF8 }

end Console

variable {φ : Type}

/-- Run a script on the files of a project. -/
def run (runner : Runner φ) (call : Call) : Effect φ Console (Except Failure Ended) :=
  .atomic fun w =>
    let (result, files) := runner call w.stored.files
    (.ok result, { w with stored := { w.stored with files } })

/-- Pass on what a script wrote. -/
def passOn (e : Ended) : Effect φ Console Unit :=
  .atomic fun w =>
    let errors := if e.errors.isEmpty then [] else [(w.log.length, e.errors)]
    (.ok (), { w with outside :=
      ⟨w.outside.output ++ e.output, w.outside.errors ++ errors⟩ })

/-- Write a text to the output of the project. -/
def sink (text : String) : Effect φ Console Unit :=
  .atomic fun w => (.ok (), { w with outside := w.outside.print text })

end Cascade.Script
