import Cascade.Config.Decode
import Cascade.Digest.Exclusion

/-!
# Checking a configuration

A configuration that can be read may still make no sense.  Dependencies
are checked in the order of their names, then commands in the order of
theirs, then hooks; the first fault is reported.
-/

namespace Cascade.Config

/-- Whether a character is an ASCII letter or digit. -/
def isNameStart (c : Char) : Bool := c.isAlphanum

/-- Whether a character may stand in the name of a dependency. -/
def isNamePart (c : Char) : Bool := isNameStart c || c == '_' || c == '.' || c == '-'

/-- Whether a text is a name for a dependency. -/
def isName (s : String) : Bool :=
  match s.toList with
  | c :: rest => isNameStart c && rest.all isNamePart
  | [] => false

/-- Fail with a text unless a condition holds. -/
def require (condition : Bool) (text : String) : Except Error Unit :=
  if condition then .ok () else .error (.config text)

/-- The exclusion that a declaration asks for. -/
def exclusionOf (name : String) (d : Declaration) : Except Error Exclusion :=
  match Exclusion.ofPatterns d.hashExclude with
  | .ok e => .ok e
  | .error failure => .error (.config ("dependency '" ++ name ++ "': " ++ failure.message))

/-- Check a declared dependency. -/
def checkDeclaration (name : String) (d : Declaration) : Except Error Unit := do
  require (isName name)
    ("invalid dependency name '" ++ name ++ "' (allowed: letters, digits, '_', '-', '.')")
  require (!Text.isAllBlank d.path) ("dependency '" ++ name ++ "' must set a non-empty `path`")
  discard (exclusionOf name d)

/-- Check a command. -/
def checkCommand (name command : String) : Except Error Unit :=
  require (!Text.isAllBlank command) ("command '" ++ name ++ "' must not be empty")

/-- Check the hook with a number. -/
def checkHook (number : Nat) (h : HookEntry) : Except Error Unit := do
  let subject := "[[hook]] #" ++ toString number ++ " must "
  require (!h.events.isEmpty) (subject ++ "list at least one event")
  require (!Text.isAllBlank h.command) (subject ++ "set a non-empty `command`")

/-- Check a configuration. -/
def check (c : Config) : Except Error Unit := do
  c.dependencies.toList.forM fun (name, d) => checkDeclaration name d
  c.commands.toList.forM fun (name, command) => checkCommand name command
  (c.hooks.zipIdx 1).forM fun (h, number) => checkHook number h

/-- Read and check the text of a configuration. -/
def parse (text : String) : Except Error Config := do
  match (Toml.parse text).bind decode with
  | none => throw (.format "the document is no configuration")
  | some c =>
    check c
    return c

end Cascade.Config
