import Cascade.Dependency.Resolve
import Cascade.Run.Action
import Cascade.Run.Node

/-!
# Running a project

A run resolves the dependencies of the project and acts on each of them in
the order of its verb.  Building and deploying may keep several workers
busy; the other verbs work on one dependency at a time.  The order in which
the workers move is the `schedule` of the run.

Around a run a batch event fires before and, depending on how it went,
after it or upon its failure.  Only running a command fires no batch event.
-/

namespace Cascade

open Run

/-- A project, with what acts on its dependencies. -/
structure Project (φ β : Type) where
  config : Config
  resolve : Bool → Stored φ → Except Error DependencyGraph × List Log.Entry × Stored φ
  backend : Backend φ β
  hooks : Hooks φ β
  /-- Where rendered text goes. -/
  sink : String → Effect φ β Unit
  /-- How many workers zero stands for. -/
  processors : Nat

/-- A part of a run that is not interrupted. -/
abbrev Session (φ β α : Type) := ExceptT Error (StateM (World φ β)) α

namespace Session

variable {φ β α : Type}

/-- Run an effect to its end. -/
def ofEffect (e : Effect φ β α) : Session φ β α := ExceptT.mk fun w => e.run.run w

/-- Log a message. -/
def say (message : String) : Session φ β Unit :=
  modify fun w => w.withLog [.info .manager message []]

/-- Say something unless the run is silent. -/
def aloud (silent : Bool) (s : Session φ β Unit) : Session φ β Unit :=
  if silent then pure () else s

/-- Run a part that may fail, and go on with its result. -/
def attempt (s : Session φ β α) : Session φ β (Except Error α) :=
  ExceptT.mk fun w =>
    let (result, w) := s.run.run w
    (.ok result, w)

end Session

/-- What a run was about, and the dependencies declared by the root project
on which the action succeeded, in order. -/
structure Outcome where
  graph : DependencyGraph
  roots : List Dependency

/-- The outcome of a run that had nothing to do. -/
def Outcome.nothing : Outcome := ⟨Graph.new DependencyGraph.rootId, []⟩

/-- How to handle the dependencies. -/
structure HandleOptions where
  selection : Selection
  /-- Log no progress. -/
  silent : Bool
  /-- The number of workers. -/
  concurrency : Nat

namespace Project

variable {φ β : Type}

/-- Resolve the dependencies. -/
def resolveGraph (p : Project φ β) (update : Bool) : Session φ β DependencyGraph :=
  ExceptT.mk fun w =>
    let (result, log, stored) := p.resolve update w.stored
    (result, { w.withLog log with stored })

/-- An error with advice on cycles. -/
def withHint : Error → Error
  | .cyclic path => .cyclicHint path
  | e => e

/-- A pool of workers on a graph of dependencies, before its first step. -/
def pool (p : Plan φ β) (workers : Nat) (graph : DependencyGraph) (w : World φ β) :
    Pool Stage (Shared φ β) :=
  .start p.provider workers ⟨w, .start p.verb.direction graph, []⟩

/-- Enough steps to end any run: a worker that is notified looks again, and
every release and every end of a worker notifies the others at most
twice. -/
def enough (workers : Nat) (graph : DependencyGraph) : Nat :=
  8 * (graph.size + workers + 2) * (workers + 2)

/-- Let workers act on a graph of dependencies, first as a schedule says and
then to the end. -/
def work (p : Plan φ β) (schedule : List Nat) (workers : Nat) (graph : DependencyGraph)
    (w : World φ β) : Pool Stage (Shared φ β) :=
  ((pool p workers graph w).follow p.provider schedule).finish p.provider (enough workers graph)

/-- What is said before the work begins. -/
def announce (verb : Verb) (selection : Selection) (total : Nat) : Session φ β Unit := do
  .say ("Resolved " ++ toString total ++ " dependencies")
  if !selection.verbose then
    .say ("To display the complete dependency execution log " ++
      "run with the '--verbose-dependencies' flag")
  let selected := if selection.only.isEmpty then total else selection.only.length
  .say (verb.title ++ " " ++ toString selected ++ " dependencies")

/-- The number of workers that options ask for. -/
def workersFor (p : Project φ β) (o : HandleOptions) : Nat :=
  if o.concurrency = 0 then p.processors else o.concurrency

/-- What the workers of a run have in common. -/
def planFor (p : Project φ β) (verb : Verb) (o : HandleOptions)
    (perform : Dependency → Task φ β Unit) : Plan φ β :=
  ⟨verb, p.hooks, o.selection, o.silent, perform⟩

/-- Resolve the dependencies for a run. -/
def resolveFor (p : Project φ β) (o : HandleOptions) : Session φ β DependencyGraph := do
  match ← (p.resolveGraph o.selection.update).attempt with
  | .ok graph => return graph
  | .error e => throw (.resolve (withHint e))

/-- Report how the work on a graph of dependencies went. -/
def report (verb : Verb) (o : HandleOptions) (graph : DependencyGraph)
    (pool : Pool Stage (Shared φ β)) : Session φ β Outcome := do
  let executed := pool.shared.executed
  set (pool.shared.world.withLog pool.warnings)
  match pool.result with
  | .error e =>
    .aloud o.silent (modify (·.withLog [.warn .manager (verb.title ++ " dependencies failed")
      [.count "executed" executed.length,
        .count "remaining" pool.shared.handout.traversal.remaining]]))
    throw e
  | .ok () =>
    .aloud o.silent (.say (if executed.isEmpty then "No dependency processed"
      else "Successfully processed " ++ toString executed.length ++ " dependencies"))
    return ⟨graph, executed.filter (·.isRoot)⟩

/-- Resolve the dependencies and perform an action on each that is selected,
in the order of the verb. -/
def handle (p : Project φ β) (schedule : List Nat) (verb : Verb) (o : HandleOptions)
    (perform : Dependency → Task φ β Unit) : Session φ β Outcome := do
  modify (·.fresh)
  if !p.config.hasDependencies then return .nothing
  .aloud o.silent (.say "Start resolving dependencies")
  let graph ← p.resolveFor o
  .aloud o.silent (announce verb o.selection graph.size)
  report verb o graph
    (work (p.planFor verb o perform) schedule (p.workersFor o) graph (← get))

/-- Fire a batch event. -/
def fireBatch (p : Project φ β) (phase : Hook.Phase) (verb : Verb) (context : Dictionary) :
    Session φ β Unit :=
  .ofEffect (p.hooks [Hook.batchEvent phase verb] none context)

/-- Fire the batch events around a run. -/
def withBatchHooks (p : Project φ β) (verb : Verb) (run : Session φ β Outcome) :
    Session φ β Outcome := do
  p.fireBatch .before verb ∅
  match ← run.attempt with
  | .ok outcome =>
    let names := ",".intercalate (outcome.roots.map (·.name))
    p.fireBatch .after verb (Std.TreeMap.ofList [("dependencies", names)])
    return outcome
  | .error e =>
    p.fireBatch .error verb (Std.TreeMap.ofList [("error", e.message)])
    throw e

/-- Handle the dependencies between the batch events. -/
def handleBatch (p : Project φ β) (schedule : List Nat) (verb : Verb) (o : HandleOptions)
    (perform : Dependency → Task φ β Unit) : Session φ β Outcome :=
  p.withBatchHooks verb (p.handle schedule verb o perform)

/-- The number of workers for building and deploying: the one that is asked
for, or else the one in the configuration. -/
def concurrency (p : Project φ β) (requested : Nat) : Nat :=
  if 0 < requested then requested else p.config.settings.maxConcurrency

/-! ## The verbs -/

/-- Resolve the dependencies and drop the hashes of all others. -/
def updateAll (p : Project φ β) : Session φ β Unit := do
  if p.config.hasDependencies then
    .say "Update dependencies"
    match ← (p.resolveGraph true).attempt with
    | .ok _ => return ()
    | .error e => throw (withHint e)

/-- Walk the dependencies without acting on any. -/
def resolveAll (p : Project φ β) (selection : Selection) (silent : Bool) :
    Session φ β Outcome :=
  p.handleBatch [] .resolve ⟨selection, silent, 1⟩ fun _ => pure ()

variable [FileSystem φ]

/-- Build the dependencies. -/
def buildAll (p : Project φ β) (schedule : List Nat) (selection : Selection) (force : Bool)
    (workers : Nat) : Session φ β Outcome :=
  p.handleBatch schedule .build ⟨selection, false, p.concurrency workers⟩
    (Action.build p.backend force)

/-- Build and deploy the dependencies. -/
def deployAll (p : Project φ β) (schedule : List Nat) (selection : Selection)
    (flags : Action.DeployFlags) (workers : Nat) : Session φ β Outcome :=
  p.handleBatch schedule .deploy ⟨selection, false, p.concurrency workers⟩
    (Action.deploy p.backend flags)

/-- Purge the dependencies, dependents first. -/
def purgeAll (p : Project φ β) (skip only : List String) (verbose : Bool) :
    Session φ β Outcome :=
  p.handleBatch [] .purge ⟨⟨skip, only, false, verbose⟩, false, 1⟩ (Action.purge p.backend)

/-- Build and render the dependencies. -/
def renderAll (p : Project φ β) (selection : Selection) (skipBuild : Bool) :
    Session φ β Outcome :=
  p.handleBatch [] .render ⟨selection, false, 1⟩ (Action.render p.backend p.sink skipBuild)

/-- A command of a dependency to run. -/
structure CommandRequest where
  dependency : String
  command : String
  arguments : List String
  update : Bool
  verbose : Bool

omit [FileSystem φ] in
/-- Run a command of one dependency.  If it was not begun on any dependency,
that is the error, whatever else may have failed. -/
def runCommand (p : Project φ β) (r : CommandRequest) : Session φ β Unit := do
  let o : HandleOptions := ⟨⟨[], [r.dependency], r.update, r.verbose⟩, true, 1⟩
  let result ← (p.handle [] .command o fun d =>
    p.backend.command d r.command r.arguments).attempt
  if (← get).started.isEmpty then throw (.dependencyNotFound r.dependency)
  match result with
  | .ok _ => return ()
  | .error e => throw e

end Project

end Cascade
