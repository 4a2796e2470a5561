import Cascade.Shell.Evaluate

/-!
# Running scripts

`Shell.run` runs a script on a tree of files and tells how it ended, what it
wrote and what has become of the files.  A script that reaches the bounds of
the evaluation counts as killed.
-/

namespace Cascade.Shell

/-- How a script ended: with a status, or by a signal. -/
inductive Outcome where
  | exited (status : Nat)
  | killed (signal : Nat)
deriving Repr, DecidableEq

/-- What came of running a script. -/
structure Result where
  outcome : Outcome
  output : ByteArray
  errors : ByteArray
  files : TreeFiles

/-- How deep commands may nest. -/
def maxDepth : Nat := 10000

/-- A shell in a directory, with an environment and no input. -/
def start (files : TreeFiles) (place : List String) (environment : List (String × String)) :
    Machine where
  files := { files with current := place }
  bindings := ((("PWD", (TreeFiles.pathOf place).text) :: environment).filter (isName ·.1)).foldl
    (fun bindings (name, value) => bindings.insert name ⟨value, true⟩) ∅
  functions := []
  arguments := []
  status := 0
  descriptors := [(0, .null), (1, .sink 0), (2, .sink 1)]
  sinks := #[.empty, .empty]
  sources := #[]
  line := 1
  options := []
  isTested := false
  loops := 0
  locals := none
  farewell := ""

/-- Run a script and then the one it leaves for the end, which keeps the
status of the first unless it ends the shell itself. -/
def runToEnd (script : String) : Act Nat := do
  let result ← (runScript (evaluate maxDepth) script).attempt
  let status ← match result with
    | .ok n | .error (.exit n) | .error (.answer n) => pure n
    | .error (.leave ..) => pure 0
    | .error stop => throw stop
  let farewell := (← get).farewell
  if farewell.isEmpty then
    return status
  modify fun m => { m with farewell := "", status := status }
  let _ ← runScript (evaluate maxDepth) farewell
  return status

/-- Run a script in a directory. -/
def run (files : TreeFiles) (place : List String) (environment : List (String × String))
    (script : String) : Result :=
  let (result, m) := (runToEnd script).run.run (start files place environment)
  { outcome := match result with
      | .ok n | .error (.exit n) | .error (.answer n) => .exited (n % 256)
      | .error (.leave ..) => .exited 0
      | .error (.killed n) => .killed n
      | .error .endless => .killed 9
    output := m.sinks.getD 0 .empty
    errors := m.sinks.getD 1 .empty
    files := { m.files with current := files.current } }

end Cascade.Shell
