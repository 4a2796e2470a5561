import Cascade.Shell.Call
import Cascade.Shell.Redirect

/-!
# Evaluating commands

The commands of a pipe run one after the other, each in a shell of its own:
what the first writes is the input of the second.  How deep commands may
nest and how often a loop may go round is bounded, so that every evaluation
ends.
-/

namespace Cascade.Shell

/-- How often a loop may go round. -/
def maxRounds : Nat := 1000000

/-- Whether the value of a word depends on a script. -/
def runsScript (w : Word) : Bool :=
  w.any fun
    | .substitution .. => true
    | _ => false

/-- The text of captured bytes without the newlines at its end. -/
def capturedText (bytes : ByteArray) : String :=
  Utility.textOfBytes (bytes.data.toList.reverse.dropWhile (· = 0x0A)).reverse

/-- A round of a loop.  It answers nothing if a `break` in it is meant for
this loop. -/
def loopRound (body : Act Nat) : Act (Option Nat) := do
  match ← body.attempt with
  | .ok status => return some status
  | .error (.leave loops again) =>
    if 1 < loops then throw (.leave (loops - 1) again)
    else if again then return some 0
    else return none
  | .error stop => throw stop

/-- Run the body of a loop for each value. -/
def forEach (body : String → Act Nat) (values : List String) : Act Nat := do
  let (status, _) ← Act.iterate (fun (_, values) => do
    match values with
    | [] => return none
    | value :: values =>
      match ← loopRound (body value) with
      | some status => return some (status, values)
      | none => return some (0, [])) (values.length + 1) (0, values)
  return status

/-- Run the body of a loop as long as its condition has the wanted
outcome. -/
def forever (wanted : Bool) (condition body : Act Nat) : Act Nat := do
  let (status, _) ← Act.iterate (fun (status, goesOn) => do
    if !goesOn then return none
    let round := do
      if (decide ((← condition.tested) = 0)) = wanted then return some (← body)
      return none
    match ← round.attempt with
    | .ok (some status) => return some (status, true)
    | .ok none => return some (status, false)
    | .error (.leave loops again) =>
      if 1 < loops then throw (.leave (loops - 1) again)
      return some (0, again)
    | .error stop => throw stop) maxRounds (0, true)
  return status

/-- The separated fields of words. -/
def fieldsOfAll (substitute : String → Act String) (words : List Word) : Act (List String) :=
  return (← words.mapM (fieldsOf substitute)).flatten

/-- Run a simple command. -/
def runSimple (run : Command → Act Nat) (substitute : String → Act String)
    (assignments : List (String × Word)) (words : List Word) : Act Nat := do
  let fields ← fieldsOfAll substitute words
  let assigned ← assignments.mapM fun (name, w) => return (name, ← valueOf substitute w)
  if (← get).options.contains 'x' then
    let pairs := assigned.map fun (name, value) => name ++ "=" ++ value
    Act.complain ("+ " ++ " ".intercalate (pairs ++ fields))
  match fields with
  | [] =>
    for (name, value) in assigned do
      Act.assign name value
    let isScripted := words.any runsScript || assignments.any fun (_, w) => runsScript w
    if isScripted then return (← get).status else return 0
  | name :: arguments =>
    let call := callCommand run (arguments.length + 2) name arguments
    if (ownUtilities.lookup name).isSome then
      for (name, value) in assigned do
        Act.assign name value
      call
    else withVariables assigned call

/-- The first case that fits a text. -/
def fittingCase (substitute : String → Act String) (text : String) :
    List (List Word × Command) → Act (Option Command)
  | [] => return none
  | (words, c) :: more => do
    let patterns ← words.mapM fun w => return patternOf (← expandWord substitute w)
    if patterns.any (·.fits text.toList) then return some c
    fittingCase substitute text more

/-- Remember how a command ended.  With the option `e`, a failure that nobody
asks for ends the shell. -/
def settle (isLeaf : Bool) (status : Nat) : Act Nat := do
  modify fun m => { m with status }
  let m ← get
  if isLeaf && status ≠ 0 && m.options.contains 'e' && !m.isTested then throw (.exit status)
  return status

/-- Run a command of which no part nests deeper than `depth`. -/
def evaluate : Nat → Command → Act Nat
  | 0, _ => throw .endless
  | depth + 1, c => do
    let run (c : Command) : Act Nat := evaluate depth c
    let substitute (script : String) : Act String := do
      let (status, bytes) ← Act.capture (runScript run script)
      modify fun m => { m with status }
      return capturedText bytes
    match c with
    | .simple line assignments words =>
      modify fun m => { m with line }
      settle true (← runSimple run substitute assignments words)
    | .redirected line c rs =>
      modify fun m => { m with line }
      Act.keepingDescriptors do
        if ← redirectAll substitute rs then run c else settle true 2
    | .sequence cs => cs.foldlM (fun _ c => run c) 0
    | .conjunction a b =>
      let status ← (run a).tested
      if status = 0 then run b else return status
    | .disjunction a b =>
      let status ← (run a).tested
      if status = 0 then return 0 else run b
    | .negation c =>
      let status ← (run c).tested
      settle false (if status = 0 then 1 else 0)
    | .pipe a b =>
      let (_, bytes) ← Act.capture (run a)
      let n ← Act.openSource bytes.data.toList
      let status ← Act.inSubshell do
        Act.point 0 (some (.source n))
        run b
      settle true status
    | .subshell c => settle true (← Act.inSubshell (run c))
    | .background c =>
      discard (Act.inSubshell (run c))
      settle false 0
    | .branch condition yes no =>
      let status ← (run condition).tested
      settle false (← run (if status = 0 then yes else no))
    | .loop wanted condition body =>
      settle false (← (forever wanted (run condition) (run body)).inLoop)
    | .each name words body =>
      let values ← match words with
        | some words => fieldsOfAll substitute words
        | none => pure (← get).arguments
      let round (value : String) : Act Nat := do
        Act.assign name value
        run body
      settle false (← (forEach round values).inLoop)
    | .choice w cases =>
      let text ← valueOf substitute w
      match ← fittingCase substitute text cases with
      | some c => run c
      | none => settle false 0
    | .function name body =>
      modify fun m => { m with functions := (name, body) :: m.functions }
      settle false 0

end Cascade.Shell
