import Cascade.Run.Backend
import Cascade.Script.Basic
import Cascade.Shell.Quote

/-!
# Acting on dependencies by scripts

The configuration of a dependency holds a script for each action on it and
for each of its commands.  They run in its directory.  The journal of the
dependency gets each line that the script of an action writes; the script of
a command writes to the project's own output.

A script that does not succeed is an error.  An action without a script
succeeds.
-/

namespace Cascade.Script

variable {φ : Type}

/-! ## Lines -/

/-- A line without the carriage return at its end. -/
def dropReturn (line : List UInt8) : List UInt8 :=
  if line.getLast? = some 0x0D then line.dropLast else line

/-- The lines of some bytes.  A line ends with a newline, before which one
carriage return is dropped; what follows the last newline is a line unless
it is empty. -/
def linesOf (bytes : ByteArray) : List (List UInt8) :=
  let pieces := Text.splitAt 0x0A bytes.data.toList
  let ended := pieces.dropLast.map dropReturn
  match pieces.getLast? with
  | some [] | none => ended
  | some rest => ended ++ [rest]

/-- The text of a line. -/
def decodeLine (line : List UInt8) : Except Text.Utf8Fault String := Text.decode ⟨line.toArray⟩

/-- Write the lines of an output into the journal, and answer them.  A line
that is no text is an error. -/
def logOutput : List (List UInt8) → Task φ Console (List String)
  | [] => return []
  | line :: lines => do
    match decodeLine line with
    | .ok s =>
      .remark (.output "stdout" s)
      return s :: (← logOutput lines)
    | .error fault =>
      throw (.other (.within "reading command stdout" (.ofText fault.message)))

/-- Write the lines of an error output into the journal, up to one that is no
text. -/
def logErrors : List (List UInt8) → Task φ Console Unit
  | [] => return ()
  | line :: lines => do
    match decodeLine line with
    | .ok s =>
      .remark (.output "stderr" s)
      logErrors lines
    | .error _ => return ()

/-! ## Environments -/

/-- Names and tags of images on one line. -/
def imagesText (images : Dictionary) : String :=
  " ".intercalate (images.toList.map fun (name, tag) => name ++ "=" ++ tag)

/-- The variable that holds the images that were built. -/
def imagesVariable (images : Dictionary) : String × String :=
  ("DEPDAG_BUILT_IMAGES", imagesText images)

/-- The variables that all scripts of a dependency know. -/
def dependencyVariables (d : Dependency) : List (String × String) :=
  [("DEPDAG_DEPENDENCY", d.name), ("DEPDAG_DEPENDENCY_PATH", d.path.text)]

/-! ## Scripts -/

/-- The log entry of a script that starts. -/
def startEntry (d : Dependency) (script : String) : Log.Entry :=
  .info .shell "starting dependency command" [.shown "dependency" d.name, .shown "cmd" script]

/-- Where the output of a script goes. -/
inductive Destination where
  | journal
  | console
deriving Repr, DecidableEq

/-- A shell, with variables for the scripts of all dependencies. -/
structure Setting (φ : Type) where
  runner : Runner φ
  environment : List (String × String)

/-- Run a script of a dependency, and answer the lines that were written into
the journal. -/
def Setting.runScript (s : Setting φ) (destination : Destination) (d : Dependency)
    (script : String) (more : List (String × String)) : Task φ Console (List String) := do
  .log (startEntry d script)
  let call : Call := ⟨script, d.path, dependencyVariables d ++ s.environment ++ more⟩
  match ← Task.ofEffect (run s.runner call) with
  | .error failure =>
    let activity := "spawning '" ++ script ++ "' for dependency '" ++ d.name ++ "'"
    throw (.other (failure.within activity))
  | .ok ended =>
    let lines ← match destination with
      | .journal => do
        let lines ← logOutput (linesOf ended.output)
        logErrors (linesOf ended.errors)
        pure lines
      | .console => do
        .ofEffect (passOn ended)
        pure []
    if ended.code ≠ 0 then throw (.commandFailed script ended.code)
    return lines

/-- Run the script of an action, if there is one. -/
def Setting.runAction (s : Setting φ) (d : Dependency) (script? : Option String)
    (more : List (String × String)) : Task φ Console (List String) :=
  match script? with
  | some script => s.runScript .journal d script more
  | none => return []

/-- The script of a command with arguments. -/
def commandScript (d : Dependency) (command : String) (arguments : List String) :
    Except Error String :=
  match d.config.commands[command]? with
  | some script => .ok (Shell.withArguments script arguments)
  | none =>
    .error (.config ("couldn't find command '" ++ command ++ "' in dependency " ++ d.name))

/-- What acts on dependencies by their scripts. -/
def Setting.backend (s : Setting φ) : Backend φ Console where
  build d := do
    discard (s.runAction d d.config.actions.build [])
    return d.config.images
  deploy d request :=
    discard (s.runAction d d.config.actions.deploy
      [("DEPDAG_FORCE_DEPLOY", toString request.force), imagesVariable request.images])
  render d images := do
    let lines ← s.runAction d d.config.actions.render [imagesVariable images]
    return String.join (lines.map (· ++ "\n"))
  purge d := discard (s.runAction d d.config.actions.purge [])
  command d command arguments := do
    let script ← ExceptT.mk (pure (commandScript d command arguments))
    discard (s.runScript .console d script [])

end Cascade.Script
