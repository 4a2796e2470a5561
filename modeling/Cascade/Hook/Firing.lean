import Cascade.Config.Basic

/-!
# Which hooks fire

The configuration of the root project lists commands together with the
events they wait for.  When events fire, each command that waits for one of
them runs, in the order of the list.  A command is told one event: of those
that fire, the first that it waits for.
-/

namespace Cascade.Hook

/-- The event of which an entry is told, if it waits for any that fires. -/
def firedFor? (entry : HookEntry) (events : List String) : Option String :=
  events.find? entry.events.contains

/-- The entries that wait for one of the events that fire, each with the
event of which it is told. -/
def firings (entries : List HookEntry) (events : List String) : List (HookEntry × String) :=
  entries.filterMap fun entry => (firedFor? entry events).map fun event => (entry, event)

/-- The variable in which a hook finds a part of the context. -/
def variableName (key : String) : String :=
  "DEPDAG_" ++
    String.ofList (key.toList.map fun c => if c.isAlphanum then c.toUpper else '_')

/-- The environment of a hook. -/
def environment (event : String) (dependency : Option String) (context : Dictionary) :
    List (String × String) :=
  [("DEPDAG_EVENT", event), ("DEPDAG_DEPENDENCY_NAME", dependency.getD "")] ++
    context.toList.map fun (key, value) => (variableName key, value)

end Cascade.Hook
