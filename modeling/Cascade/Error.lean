/-!
# What can go wrong

`Failure` is a plain cause with the contexts it was met in.  `Error` is
the closed list of ways in which the tool fails; `Error.message` is the
text of each.

An error is reported as a chain of texts, from the outermost context down
to the first cause (`Error.links`).  A link that is itself an `Error`
keeps it, because the exit status of a run looks for the exit status of a
failed command among the errors of the chain (`Error.exitStatus`).  The
cause behind an `action` and the cause behind a `resolve` are texts only
in that chain; their exit statuses are found by looking through the two
wrappers (`Error.commandStatus`).
-/

namespace Cascade

/-- A cause in words, inside contexts that are listed from the outermost
to the innermost. -/
structure Failure where
  contexts : List String
  text : String
deriving Repr, DecidableEq, Inhabited

namespace Failure

/-- A cause without any context. -/
def ofText (text : String) : Failure := ⟨[], text⟩

/-- The same failure, met in a wider context. -/
def within (context : String) (f : Failure) : Failure :=
  ⟨context :: f.contexts, f.text⟩

/-- All texts, outermost first. -/
def chain (f : Failure) : List String := f.contexts ++ [f.text]

/-- All texts on one line. -/
def message (f : Failure) : String := ": ".intercalate f.chain

/-- The outermost text. -/
def head (f : Failure) : String := f.contexts.headD f.text

end Failure

/-- The ways in which the tool fails. -/
inductive Error where
  /-- A configuration that is well formed but makes no sense. -/
  | config (text : String)
  /-- Reading or writing failed. -/
  | io (text : String)
  /-- A configuration file that is not written in its format. -/
  | format (text : String)
  /-- No node has this ID. -/
  | nodeNotFound (id : String)
  /-- An edge would close the cycle `path`, which starts and ends at the
  same ID. -/
  | cyclic (path : List String)
  /-- A cycle, with advice on how to go on in spite of it. -/
  | cyclicHint (path : List String)
  /-- Building the dependency graph failed. -/
  | resolve (cause : Error)
  /-- The action on one dependency failed; `log` is all that it logged. -/
  | action (verb dependency log : String) (cause : Error)
  /-- A lifecycle hook failed. -/
  | hook (event text : String)
  /-- No dependency has this name. -/
  | dependencyNotFound (name : String)
  /-- A shell command ended with a status other than zero; the status is
  negative when a signal ended it. -/
  | commandFailed (command : String) (status : Int)
  /-- Any other failure. -/
  | other (failure : Failure)
  /-- An error met inside further contexts, outermost first. -/
  | wrapped (contexts : List String) (cause : Error)
deriving Repr, DecidableEq, Inhabited

namespace Error

/-- The text of a cycle: one ID a line. -/
def cycleText (path : List String) : String :=
  "Cyclic dependency found: \n" ++ "\n".intercalate path

/-- The text of an error. -/
def message : Error → String
  | .config text => "Configuration error: " ++ text
  | .io text => "IO error: " ++ text
  | .format text => "TOML parsing error: " ++ text
  | .nodeNotFound id => "Node not found: " ++ id
  | .cyclic path => cycleText path
  | .cyclicHint path =>
    cycleText path ++ ".\n To allow cyclic dependencies run with the '--allow-cyclic' flag"
  | .resolve cause => "resolve dependencies: " ++ cause.message
  | .action verb dependency log _ => verb ++ " dependency " ++ dependency ++ " error " ++ log
  | .hook event text => "hook '" ++ event ++ "' failed: " ++ text
  | .dependencyNotFound name => "couldn't find dependency " ++ name
  | .commandFailed command status =>
    "command '" ++ command ++ "' exited with code " ++ toString status
  | .other failure => failure.head
  | .wrapped contexts cause => contexts.headD cause.message

/-- One text of a reported chain, with the error it stands for if there is
one to look into. -/
structure Link where
  text : String
  error : Option Error

/-- A link of text only. -/
def Link.ofText (text : String) : Link := ⟨text, none⟩

/-- The links below the outermost text of an error. -/
def causes : Error → List Link
  | .io text => [.ofText text]
  | .format text => [.ofText text]
  | .action _ _ _ cause => .ofText cause.message :: cause.causes
  | .other failure => failure.chain.tail.map .ofText
  | .wrapped [] cause => cause.causes
  | .wrapped (_ :: inner) cause =>
    inner.map .ofText ++ ⟨cause.message, some cause⟩ :: cause.causes
  | _ => []

/-- The chain of an error, outermost first. -/
def links (e : Error) : List Link := ⟨e.message, some e⟩ :: e.causes

/-- The chain of an error that was met inside `contexts`, outermost first. -/
def linksWithin (contexts : List String) (e : Error) : List Link :=
  contexts.map .ofText ++ e.links

/-- The cycle that an error is about. -/
def cycle? : Error → Option (List String)
  | .cyclic path | .cyclicHint path => some path
  | .resolve cause => cause.cycle?
  | _ => none

/-- The status of the failed command behind an error, looking through the
`action` and `resolve` wrappers. -/
def commandStatus : Error → Option Int
  | .commandFailed _ status => some status
  | .action _ _ _ cause => cause.commandStatus
  | .resolve cause => cause.commandStatus
  | _ => none

/-- The exit status of a process that ends with this error.  A failed
command's own status goes through when `passThrough` holds, which is the
case for the verb that runs one command, and only if it is positive; any
other failure is status 1. -/
def exitStatus (passThrough : Bool) (contexts : List String) (e : Error) : Int :=
  if passThrough then
    match ((e.linksWithin contexts).filterMap (·.error)).findSome? commandStatus with
    | some status => if 0 < status then status else 1
    | none => 1
  else 1

/-- A cause in the report of an error: indented by four columns, or behind
its number, which ends in column five. -/
def reportCause (number : Option Nat) (text : String) : String :=
  match number with
  | none => "\n    " ++ text.replace "\n" "\n    "
  | some n =>
    let digits := toString n
    "\n" ++ "".pushn ' ' (5 - digits.length) ++ digits ++ ": " ++ text.replace "\n" "\n       "

/-- What the process writes about an error that ends it: the outermost
text, then the causes below it, numbered when there are several. -/
def report (e : Error) : String :=
  match e.causes.map (·.text) with
  | [] => e.message
  | [cause] => e.message ++ "\n\nCaused by:" ++ reportCause none cause
  | causes =>
    e.message ++ "\n\nCaused by:" ++
      String.join (causes.zipIdx.map fun (cause, n) => reportCause (some n) cause)

end Error

end Cascade
