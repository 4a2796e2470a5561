import Cascade.Cli.Options
import Cascade.Log
import Cascade.Run.Project

/-!
# What a command line asks for

The program's level knows the options that every verb shares, and each verb
has a level of its own, which knows them too.  A shared option that is
given on both levels counts as given behind the verb.
-/

namespace Cascade.Cli

open Run (Selection)

/-- The verb of a command line with its options. -/
inductive Request where
  | update
  | build (selection : Selection) (force : Bool) (workers : Nat)
  | deploy (selection : Selection) (flags : Action.DeployFlags) (workers : Nat)
  | purge (selection : Selection)
  | render (selection : Selection) (skipBuild : Bool)
  | resolve (selection : Selection)
  | run (request : Project.CommandRequest)

/-- A command line that can be run. -/
structure Invocation where
  config : String
  level : Option Log.Level
  allowCyclic : Bool
  request : Request

/-! ## The options -/

/-- Ask for help. -/
def helpOption : Opt := ⟨"help", some 'h', .help⟩

/-- An option without a letter. -/
def option (name : String) (kind : Kind) : Opt := ⟨name, none, kind⟩

/-- The log levels by name. -/
def logLevels : List (String × Log.Level) :=
  [("error", .error), ("warn", .warn), ("info", .info), ("debug", .debug), ("trace", .trace)]

/-- The options on every level. -/
def sharedOptions : List Opt :=
  [option "config" .text, option "log-level" (.choice (logLevels.map (·.1))),
    option "allow-cyclic" .switch, helpOption]

/-- How a run reports and refreshes. -/
def reportOptions : List Opt :=
  [option "update-dependencies" .switch, option "verbose-dependencies" .switch]

/-- Which dependencies a run acts upon. -/
def selectionOptions : List Opt :=
  [option "skip-dependency" .texts, option "dependency" .texts] ++ reportOptions

/-- The options for building. -/
def buildOptions : List Opt :=
  selectionOptions ++ [option "force-dependencies" .switch, option "max-concurrent-builds" .count]

/-- The options of a verb. -/
def optionsOf : String → List Opt
  | "build" => buildOptions
  | "deploy" =>
    buildOptions ++
      [option "skip-build" .switch, option "skip-deploy" .switch, option "force-deploy" .switch]
  | "purge" | "resolve" => selectionOptions
  | "render" => selectionOptions ++ [option "skip-build" .switch]
  | "run" => reportOptions
  | _ => []

/-- The verbs. -/
def verbs : List String := ["update", "build", "deploy", "purge", "render", "resolve", "run"]

/-- The level of the program. -/
def programLevel : Level :=
  ⟨sharedOptions ++ [⟨"version", some 'V', .version⟩], verbs ++ ["help"], 0⟩

/-- The level of a verb.  A command to run is two words, and all words
behind them are its arguments. -/
def verbLevel (verb : String) : Level :=
  ⟨optionsOf verb ++ sharedOptions, [], if verb = "run" then 2 else 0⟩

/-! ## Reading a command line -/

/-- Whether the words behind a request for help name something there is help
about. -/
def helpRefusal : List String → Refusal
  | [] => .help
  | [word] => if programLevel.verbs.contains word then .help else .unknownVerb
  | _ => .unknownVerb

/-- The selection that was given. -/
def selectionOf (r : Reading) : Selection :=
  ⟨r.values "skip-dependency", r.values "dependency", r.has "update-dependencies",
    r.has "verbose-dependencies"⟩

/-- The number of workers that was given. -/
def workersOf (r : Reading) : Nat := ((r.value? "max-concurrent-builds").bind Text.count?).getD 0

/-- The request that was read at the level of a verb. -/
def requestOf (verb : String) (r : Reading) : Except Refusal Request :=
  let selection := selectionOf r
  match verb with
  | "build" => .ok (.build selection (r.has "force-dependencies") (workersOf r))
  | "deploy" =>
    .ok (.deploy selection
      ⟨r.has "force-dependencies", r.has "skip-build", r.has "skip-deploy", r.has "force-deploy"⟩
      (workersOf r))
  | "purge" => .ok (.purge selection)
  | "render" => .ok (.render selection (r.has "skip-build"))
  | "resolve" => .ok (.resolve selection)
  | "run" =>
    match r.words with
    | dependency :: command :: arguments =>
      .ok (.run ⟨dependency, command, arguments, selection.update, selection.verbose⟩)
    | _ => .error .missingWord
  | _ => .ok .update

/-- Read the words of a command line. -/
def parse (words : List String) : Except Refusal Invocation := do
  let (outer, verb?) ← programLevel.readAll .empty words
  match verb? with
  | none =>
    let outer ← outer.settle
    throw (if outer.given.isEmpty then .nothingAsked else .noVerb)
  | some ("help", rest) => throw (helpRefusal rest)
  | some (verb, rest) =>
    let (inner, _) ← (verbLevel verb).readAll .empty rest
    let inner ← inner.settle
    let request ← requestOf verb inner
    let outer ← outer.settle
    let shared (name : String) : Option String :=
      (inner.value? name).orElse fun _ => outer.value? name
    return { config := (shared "config").getD Config.fileName
             level := (shared "log-level").bind fun name => logLevels.lookup name
             allowCyclic := (shared "allow-cyclic").isSome
             request }

end Cascade.Cli
