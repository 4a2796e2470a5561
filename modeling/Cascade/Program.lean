import Cascade.Cli.Invocation
import Cascade.Dependency.Resolve
import Cascade.Log.Filter
import Cascade.Script.Backend
import Cascade.Script.Hooks

/-!
# The program

`Program.run` does on a tree of files what a command line asks for, and
`Program.start` is the whole process: it reads the words of the command line,
runs them and says what is printed and how the process exits.
-/

namespace Cascade.Program

open Run (Selection)
open Script (Console)

/-- All that a run works on. -/
abbrev State := World TreeFiles Console

/-- What a run does, and how it fails. -/
abbrev Activity := Session TreeFiles Console Unit

/-- The directory of the project: that of its configuration file, or else the
current one. -/
def rootDirectory (files : TreeFiles) (config : Path) : Path :=
  match config.parent? with
  | some directory => if directory.text.isEmpty then TreeFiles.pathOf files.current else directory
  | none => TreeFiles.pathOf files.current

/-- The project with a configuration in a directory. -/
def projectOf (processors : Nat) (allowCyclic : Bool) (root : Path) (config : Config) :
    Project TreeFiles Console where
  config
  resolve := (Resolver.mk root config allowCyclic).resolve
  backend := (Script.Setting.mk .shell []).backend
  hooks := (Script.HookSetting.mk .shell root config.hooks).hooks
  sink := Script.sink
  processors

/-- The lines that show a dependency and, indented, all below it.  At most
`depth` levels are shown. -/
def treeLines (graph : DependencyGraph) : Nat → Nat → Dependency → List String
  | 0, _, _ => []
  | depth + 1, level, d =>
    let children := d.children.filterMap fun id => (graph.find? id).bind (·.payload)
    ("".pushn ' ' (2 * level) ++ d.name ++ " (" ++ d.path.text ++ ")") ::
      children.flatMap (treeLines graph depth (level + 1))

/-- Print the dependencies of an outcome as trees. -/
def printTrees (o : Outcome) : Activity :=
  modify fun w =>
    let lines := o.roots.flatMap (treeLines o.graph (o.graph.size + 1) 0)
    { w with outside := w.outside.print (String.join (lines.map (· ++ "\n"))) }

/-- Do what is asked for. -/
def perform (p : Project TreeFiles Console) : Cli.Request → Activity
  | .update => discard p.updateAll
  | .build selection force workers => discard (p.buildAll [] selection force workers)
  | .deploy selection flags workers => discard (p.deployAll [] selection flags workers)
  | .purge s => discard (p.purgeAll s.skip s.only s.verbose)
  | .render selection skipBuild => discard (p.renderAll selection skipBuild)
  | .resolve selection => do printTrees (← p.resolveAll selection false)
  | .run request => p.runCommand request

/-- What came of a run. -/
structure Result where
  error : Option Error
  log : List Log.Entry
  console : Console
  files : TreeFiles

/-- The result of a run that ended before it began. -/
def Result.failed (files : TreeFiles) (e : Error) : Result := ⟨some e, [], .empty, files⟩

/-- Run an invocation. -/
def run (processors : Nat) (i : Cli.Invocation) (files : TreeFiles) : Result :=
  let path : Path := ⟨i.config⟩
  match Config.load files path with
  | .error e => .failed files e
  | .ok config =>
    let root := rootDirectory files path
    let project := projectOf processors i.allowCyclic root config
    let world : State := ⟨⟨files, .open config.settings.storage root⟩, [], ∅, [], .empty⟩
    let (result, w) := (perform project i.request).run.run world
    { error := match result with
        | .ok () => none
        | .error e => some e
      log := w.log
      console := w.outside
      files := w.stored.files }

/-- Whether the status of a failed command is that of the process. -/
def passesStatus : Cli.Request → Bool
  | .run _ => true
  | _ => false

/-- The exit status of a run. -/
def exitStatus (i : Cli.Invocation) (r : Result) : Int :=
  match r.error with
  | some e => e.exitStatus (passesStatus i.request) []
  | none => 0

/-! ## The process -/

/-- What a process leaves behind. -/
structure Finished where
  status : Int
  result : Result
  /-- Which log entries are shown. -/
  filter : Log.Filter
  /-- What is reported about the error that ended the process. -/
  report : Option String

namespace Finished

/-- The log entries that are shown. -/
def shown (f : Finished) : List Log.Entry := f.result.log.filter f.filter.shows

/-- All that is written to the error output: the log entries that are shown,
among them what scripts wrote when they ran, and the report. -/
def errorOutput (f : Finished) : ByteArray :=
  let written (n : Nat) : List ByteArray :=
    (f.result.console.errors.filter (·.1 = n)).map (·.2)
  let line (e : Log.Entry) : List ByteArray :=
    if f.filter.shows e then [(e.consoleLine ++ "\n").toUTF8] else []
  let logged := f.result.log.zipIdx.flatMap fun (e, n) => written n ++ line e
  let parts := logged ++ written f.result.log.length ++ (f.report.map (·.toUTF8)).toList
  parts.foldl (· ++ ·) .empty

end Finished

/-- What is written about the error that ends a process. -/
def errorReport (e : Error) : String := "depdag error: " ++ e.report ++ "\n"

/-- A process that only prints a text. -/
def printing (files : TreeFiles) (text : String) : Finished :=
  ⟨0, ⟨none, [], Console.empty.print text, files⟩, .upTo .info, none⟩

/-- The name and the version of the program. -/
def version : String := "depdag 0.1.0"

/-- How the program is called. -/
def usage : String :=
  "Usage: depdag [OPTIONS] <COMMAND>\n\nCommands: " ++ ", ".intercalate Cli.verbs ++ "\n"

/-- Run the process with the words of a command line and the log filter of
the environment. -/
def start (processors : Nat) (words : List String) (filter : Option String) (files : TreeFiles) :
    Finished :=
  match Cli.parse words with
  | .error .help => printing files usage
  | .error .version => printing files (version ++ "\n")
  | .error _ => ⟨2, ⟨none, [], ⟨.empty, [(0, usage.toUTF8)]⟩, files⟩, .upTo .info, none⟩
  | .ok i =>
    match Log.Filter.choose i.level filter with
    | .error text =>
      let e : Error := .other (.ofText text)
      ⟨e.exitStatus (passesStatus i.request) [], .failed files e, .upTo .info,
        some (errorReport e)⟩
    | .ok f =>
      let r := run processors i files
      ⟨exitStatus i r, r, f, r.error.map errorReport⟩

end Cascade.Program
