import Cascade.Hook.Event
import Cascade.Pool.Basic
import Cascade.Run.Backend
import Cascade.Traversal.Handout

/-!
# One dependency of a run

A claimed dependency that is not selected or is to be skipped is released
as done.  On any other one the hooks fire before the action, and after it
or upon its failure.  A dependency whose action or hooks fail is released
as failed, and a failing hook aborts the traversal.

Each release and each abort is followed by a notification, in a step of its
own.
-/

namespace Cascade.Run

variable {φ β : Type}

/-- Which dependencies a run acts upon, and how. -/
structure Selection where
  /-- Names that are walked but not acted upon. -/
  skip : List String
  /-- Names to act upon; none stand for all. -/
  only : List String
  /-- Drop the hashes of what is not a dependency any more. -/
  update : Bool
  /-- Forward the journals to the log. -/
  verbose : Bool
deriving Repr, DecidableEq, Inhabited

/-- Whether a name is selected. -/
def Selection.selects (s : Selection) (name : String) : Bool :=
  s.only.isEmpty || s.only.contains name

/-- What the workers of a run share. -/
structure Shared (φ β : Type) where
  world : World φ β
  handout : Handout Dependency
  /-- The dependencies on which the action succeeded, in order. -/
  executed : List Dependency

/-- What the workers of a run have in common. -/
structure Plan (φ β : Type) where
  verb : Verb
  hooks : Hooks φ β
  selection : Selection
  silent : Bool
  perform : Dependency → Task φ β Unit

/-- A computation on what the workers share. -/
abbrev Step (φ β α : Type) := Routine (Shared φ β) α

/-- Do what concerns the world alone. -/
def onWorld {α : Type} (r : Routine (World φ β) α) : Step φ β α :=
  r.lift (·.world) fun world s => { s with world }

/-- Log an entry. -/
def log (entry : Log.Entry) : Step φ β Unit := onWorld (.modify (·.withLog [entry]))

/-- Notify all who wait for work. -/
def notify : Step φ β Unit := .modify fun s => { s with handout := s.handout.notify }

/-- What is logged when a finished node cannot be taken out of the graph. -/
def unremovedEntry (id : String) (e : Error) : Log.Entry :=
  .warn .traversal "failed to remove finished dependency from graph"
    [.text "id" id, .shown "error" e.message]

/-- Release a claim. -/
def release (id : String) (succeeded : Bool) : Step φ β Unit := do
  .modify fun s =>
    let (error, handout) := s.handout.release id succeeded
    { s with world := s.world.withLog (error.toList.map (unremovedEntry id)), handout }
  notify

/-- Hand out nothing any more. -/
def abort : Step φ β Unit := do
  .modify fun s => { s with handout := s.handout.abort }
  notify

/-- What the hooks are told about a dependency. -/
def hookContext (d : Dependency) : Dictionary :=
  Std.TreeMap.ofList [("dependency_name", d.name), ("dependency_id", d.id),
    ("dependency_path", d.path.text),
    ("dependency_config_path", (d.path.join Config.fileName).text)]

namespace Plan

/-- Fire the hooks of a phase; a failure aborts the traversal. -/
def fire (p : Plan φ β) (phase : Hook.Phase) (d : Dependency) :
    ExceptT Error (Routine (Shared φ β)) Unit :=
  ExceptT.mk do
    let events := Hook.dependencyEvents phase p.verb d.name
    match ← onWorld (p.hooks events (some d.name) (hookContext d)).run with
    | .ok () => pure (.ok ())
    | .error e =>
      abort
      pure (.error e)

/-- Act on a dependency between its hooks. -/
def act (p : Plan φ β) (d : Dependency) : ExceptT Error (Routine (Shared φ β)) Unit := do
  p.fire .before d
  let journal := Log.Journal.new d.name p.selection.verbose
  ExceptT.lift (onWorld (.modify fun w => { w with started := w.started ++ [d.id] }))
  let (result, journal) ← ExceptT.lift (onWorld ((p.perform d).run.run journal))
  match result with
  | .error cause =>
    p.fire .error d
    throw (.action p.verb.title d.name journal.content cause)
  | .ok () =>
    p.fire .after d
    ExceptT.lift (.modify fun s => { s with executed := s.executed ++ [d] })
    if !p.silent then
      let said := p.verb.title ++ " dependency " ++ d.name ++ " completed"
      ExceptT.lift (log (.info .manager said []))

/-- The work on a claimed dependency. -/
def job (p : Plan φ β) (claim : Claim Dependency) : Step φ β (Except Fault Unit) := do
  let d := claim.payload
  if !p.selection.selects d.name then
    release claim.id true
    return .ok ()
  if p.selection.skip.contains d.name then
    log (.info .manager ("Skip dependency " ++ d.name) [])
    release claim.id true
    return .ok ()
  match ← (p.act d).run with
  | .ok () =>
    release claim.id true
    return .ok ()
  | .error e =>
    release claim.id false
    return .error (.error e)

end Plan

/-! ## Asking for work -/

/-- How far a worker's request for work has come. -/
inductive Stage where
  /-- It has not begun. -/
  | outside
  /-- The worker is registered and about to look. -/
  | registered
  /-- The worker looked in vain and waits for a notification. -/
  | parked
deriving Repr, DecidableEq

/-- The traversal as a source of work. -/
def Plan.provider (p : Plan φ β) : Provider Stage (Shared φ β) where
  start := .outside
  ask worker stage s :=
    match stage with
    | .outside => some ({ s with handout := s.handout.register worker }, .asking .registered)
    | .registered =>
      let (offer, handout) := s.handout.inspect worker
      let s := { s with handout }
      match offer with
      | .claim claim => some (s, .job (p.job claim))
      | .pending => some (s, .asking .parked)
      | .exhausted => some (s, .exhausted)
    | .parked =>
      (s.handout.wake worker).map fun handout => ({ s with handout }, .asking .registered)

end Cascade.Run
