import Cascade.Dependency.Basic
import Cascade.Log.Journal
import Cascade.Pool.Routine

/-!
# What a run works on

`World` is all that the steps of a run share: the project's files and its
store of hashes, the log, the images that were built, and whatever lies
outside.  Commands, hooks and the output live outside; nothing here looks
into it.

An `Effect` is a computation in atomic steps on the world that may fail.  A
`Task` is the part of one that belongs to a dependency, and writes its
journal; a task that fails keeps what it wrote.
-/

namespace Cascade

/-- What the steps of a run share. -/
structure World (φ β : Type) where
  stored : Stored φ
  log : List Log.Entry
  /-- The images that this run built, by the ID of the dependency. -/
  images : Std.TreeMap String Dictionary
  /-- The IDs of the dependencies on which the action has begun. -/
  started : List String
  outside : β

/-- A computation on the world that may fail. -/
abbrev Effect (φ β α : Type) := ExceptT Error (Routine (World φ β)) α

/-- A computation on the world that may fail and writes a journal. -/
abbrev Task (φ β α : Type) := ExceptT Error (StateT Log.Journal (Routine (World φ β))) α

variable {φ β α : Type}

namespace World

/-- Add entries to the log. -/
def withLog (w : World φ β) (entries : List Log.Entry) : World φ β :=
  { w with log := w.log ++ entries }

/-- The images that were built for a dependency. -/
def imagesOf (w : World φ β) (id : String) : Dictionary := w.images.getD id ∅

/-- Begin a run: nothing was built and nothing has begun. -/
def fresh (w : World φ β) : World φ β := { w with images := ∅, started := [] }

end World

namespace Effect

/-- An atomic step that may fail. -/
def atomic (f : World φ β → Except Error α × World φ β) : Effect φ β α :=
  ExceptT.mk (Routine.atomic f)

/-- Log an entry. -/
def log (entry : Log.Entry) : Effect φ β Unit := atomic fun w => (.ok (), w.withLog [entry])

end Effect

namespace Task

/-- An atomic step that may fail. -/
def atomic (f : World φ β → Except Error α × World φ β) : Task φ β α :=
  ExceptT.mk fun journal => (Routine.atomic f).bind fun a => .done (a, journal)

/-- Do what does not concern the journal. -/
def ofEffect (e : Effect φ β α) : Task φ β α :=
  ExceptT.mk fun journal => e.run.bind fun a => .done (a, journal)

/-- Look at the world. -/
def inspect (f : World φ β → α) : Task φ β α := atomic fun w => (.ok (f w), w)

/-- Log an entry. -/
def log (entry : Log.Entry) : Task φ β Unit := ofEffect (.log entry)

/-- Write a line into the journal. -/
def remark (r : Log.Remark) : Task φ β Unit :=
  ExceptT.mk fun journal =>
    (Routine.modify fun w => w.withLog (journal.forwarded r)).bind fun _ =>
      .done (.ok (), journal.add r)

/-- Run a task that may fail, and go on with its result. -/
def attempt (t : Task φ β α) : Task φ β (Except Error α) :=
  ExceptT.mk fun journal => (t.run.run journal).bind fun (result, journal) =>
    .done (.ok result, journal)

end Task

end Cascade
