import Cascade.Verb

/-!
# Lifecycle events

Around the action on a dependency three events fire at once, the most
specific first; around a whole run a single batch event fires.
-/

namespace Cascade.Hook

/-- When an event fires. -/
inductive Phase where
  | before
  | after
  | error
deriving Repr, DecidableEq, Inhabited

/-- The name of a phase in event names. -/
def Phase.key : Phase → String
  | .before => "before"
  | .after => "after"
  | .error => "error"

/-- The events around the action on one dependency. -/
def dependencyEvents (phase : Phase) (verb : Verb) (dependency : String) : List String :=
  let event := phase.key ++ ":" ++ verb.key ++ "Dependency"
  [event ++ ":" ++ dependency, event, "dependencies." ++ phase.key ++ verb.title]

/-- The event around a whole run. -/
def batchEvent (phase : Phase) (verb : Verb) : String :=
  phase.key ++ ":" ++ verb.key ++ "Dependencies"

end Cascade.Hook
