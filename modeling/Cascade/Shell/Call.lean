import Cascade.Shell.Grammar
import Cascade.Shell.Utility.Edit
import Cascade.Shell.Utility.Files
import Cascade.Shell.Utility.Shell
import Cascade.Shell.Utility.Test

/-!
# Calling commands by name

A name is that of a function, of a utility, or of a program that runs
another program.  How a command of the language is run is not known here;
`run` stands for it.
-/

namespace Cascade.Shell

/-! ## Utilities by name -/

/-- The utilities that change the shell itself.  Assignments before them
last. -/
def ownUtilities : List (String × (List String → Act Nat)) :=
  [(":", fun _ => return 0), ("exit", Utility.exit), ("return", Utility.returnFrom),
    ("break", Utility.leave false), ("continue", Utility.leave true), ("shift", Utility.shift),
    ("set", Utility.set), ("export", Utility.exportAll), ("readonly", Utility.fix),
    ("unset", Utility.unset), ("trap", Utility.trap)]

/-- The other utilities. -/
def otherUtilities : List (String × (List String → Act Nat)) :=
  [("true", fun _ => return 0), ("false", fun _ => return 1), ("echo", Utility.echo),
    ("printf", Utility.printf), ("test", Utility.test), ("[", Utility.bracket), ("cd", Utility.cd),
    ("pwd", Utility.pwd), ("read", Utility.read), ("local", Utility.hide),
    ("kill", Utility.kill), ("wait", fun _ => return 0), ("umask", fun _ => return 0),
    ("sleep", fun _ => return 0), ("sync", fun _ => return 0), ("cat", Utility.cat),
    ("grep", Utility.grep), ("sort", Utility.sort), ("wc", Utility.wc), ("head", Utility.head),
    ("tail", Utility.tail), ("seq", Utility.seq), ("basename", Utility.basename),
    ("dirname", Utility.dirname), ("touch", Utility.touch), ("rm", Utility.rm),
    ("rmdir", Utility.rmdir), ("mkdir", Utility.mkdir), ("cp", Utility.cp), ("mv", Utility.mv),
    ("ln", Utility.ln), ("ls", Utility.ls), ("tr", Utility.tr), ("cut", Utility.cut),
    ("uniq", Utility.uniq), ("tee", Utility.tee), ("sed", Utility.sed)]

/-- Run an act with more variables that other programs know, for its time. -/
def withVariables (assignments : List (String × String)) (a : Act Nat) : Act Nat := do
  let saved := (← get).bindings
  for (name, value) in assignments do
    Act.assign name value
    Act.exportVariable name
  let result ← a.attempt
  for (name, _) in assignments do
    modify fun m => { m with bindings := m.bindings.alter name fun _ => saved[name]? }
  Act.ofResult result

/-! ## Calls -/

/-- Run the commands of a script. -/
def runScript (run : Command → Act Nat) (script : String) : Act Nat := do
  let ts := tokens script
  let (status, _) ← Act.iterate (fun (_, ts) => do
    match Reader.nextCommand?.run ts with
    | .ok (some c, rest) => return some (← run c, rest)
    | .ok (none, _) => return none
    | .error fault =>
      modify fun m => { m with line := fault.line }
      Act.complainAs fault.fault.text
      throw (.exit 2)) (ts.length + 1) (0, ts)
  return status

/-- Run a function. -/
def callFunction (run : Command → Act Nat) (body : Command) (arguments : List String) :
    Act Nat := do
  let saved ← get
  modify fun m => { m with arguments, locals := some [] }
  let result ← (run body).attempt
  modify fun m =>
    let bindings := (m.locals.getD []).foldl (fun bindings (name, hidden) =>
      bindings.alter name fun _ => hidden) m.bindings
    { m with bindings, arguments := saved.arguments, locals := saved.locals }
  match result with
  | .error (.answer status) => return status
  | result => Act.ofResult result

/-- The commands that run other commands. -/
def runners : List String := ["eval", "sh", "bash", ".", "exec", "command", "env"]

/-- Whether a name is that of a utility. -/
def isKnown (name : String) : Bool :=
  (ownUtilities.lookup name).isSome || (otherUtilities.lookup name).isSome ||
    runners.contains name

/-- Run another program that runs a program: a shell, or `env`. -/
def runNested (run : Command → Act Nat) (call : String → List String → Act Nat)
    (name : String) (arguments : List String) : Option (Act Nat) :=
  match name, arguments with
  | "eval", words => some (runScript run (" ".intercalate words))
  | "sh", "-c" :: script :: more | "bash", "-c" :: script :: more => some do
    Act.inSubshell do
      modify fun m => { m with arguments := more.tail }
      runScript run script
  | "sh", file :: more | "bash", file :: more => some do
    match ← Utility.contentOf "sh" file with
    | none => return 2
    | some bytes =>
      Act.inSubshell do
        modify fun m => { m with arguments := more }
        runScript run (Utility.textOfBytes bytes)
  | ".", file :: _ => some do
    match ← Utility.contentOf "." file with
    | none => throw (.exit 2)
    | some bytes => runScript run (Utility.textOfBytes bytes)
  | "exec", word :: words => some do
    if !isKnown word then
      Act.complainAs ("exec: " ++ word ++ ": not found")
      throw (.exit 127)
    throw (.exit (← call word words))
  | "exec", [] => some (return 0)
  | "command", "-v" :: word :: _ => some do
    if isKnown word then
      Act.print (word ++ "\n")
      return 0
    return 127
  | "command", word :: words => some (call word words)
  | "env", words => some do
    let pairs := words.takeWhile (·.toList.contains '=')
    let assignments := pairs.map fun word =>
      let (name, value?) := Utility.splitAssignment word
      (name, value?.getD "")
    Act.inSubshell <| withVariables assignments do
      match words.drop pairs.length with
      | [] =>
        for (name, value) in ← Act.environment do
          Act.print (name ++ "=" ++ value ++ "\n")
        return 0
      | word :: words => call word words
  | _, _ => none

/-- Run a command that is called by a name. -/
def callCommand (run : Command → Act Nat) : Nat → String → List String → Act Nat
  | 0, _, _ => throw .endless
  | depth + 1, name, arguments => do
    match (← get).functions.lookup name with
    | some body => callFunction run body arguments
    | none =>
      let found := (ownUtilities.lookup name).orElse fun _ => otherUtilities.lookup name
      match found, runNested run (callCommand run depth) name arguments with
      | some utility, _ => utility arguments
      | none, some act => act
      | none, none =>
        let files := (← get).files
        let isThere := name.toList.contains '/' && files.isFile ⟨name⟩
        Act.complainAs (name ++ if isThere then ": Permission denied" else ": not found")
        return if isThere then 126 else 127

end Cascade.Shell
