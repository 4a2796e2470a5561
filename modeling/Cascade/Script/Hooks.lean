import Cascade.Hook.Firing
import Cascade.Run.Backend
import Cascade.Script.Basic

/-!
# Hooks by scripts

The commands that wait for an event run one after another, until one fails.
They write to the project's own output.
-/

namespace Cascade.Script

/-- The hooks of a project, and where their commands run. -/
structure HookSetting (φ : Type) where
  runner : Runner φ
  directory : Path
  entries : List HookEntry

namespace HookSetting

variable {φ : Type}

/-- The log entry of a command that starts. -/
def startEntry (event command : String) : Log.Entry :=
  .info .hooks "running hook" [.text "event" event, .shown "cmd" command]

/-- The error of a command that does not succeed. -/
def failed (event command : String) (code : Int) : Error :=
  .hook event ("command '" ++ command ++ "' exited with code " ++ toString code)

/-- Run the command of an entry. -/
def runEntry (h : HookSetting φ) (dependency : Option String) (context : Dictionary)
    (entry : HookEntry) (event : String) : Effect φ Console Unit := do
  .log (startEntry event entry.command)
  let environment := Hook.environment event dependency context
  match ← run h.runner ⟨entry.command, h.directory, environment⟩ with
  | .error failure => throw (.other (failure.within ("spawning hook '" ++ entry.command ++ "'")))
  | .ok ended =>
    passOn ended
    if ended.code ≠ 0 then throw (failed event entry.command ended.code)

/-- Run the commands that wait for one of some events. -/
def hooks (h : HookSetting φ) : Hooks φ Console := fun events dependency context =>
  (Hook.firings h.entries events).forM fun (entry, event) =>
    h.runEntry dependency context entry event

end HookSetting

end Cascade.Script
