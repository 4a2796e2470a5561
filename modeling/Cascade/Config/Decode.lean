import Cascade.Config.Basic
import Cascade.Text.Count
import Cascade.Toml.Document

/-!
# Reading a configuration from a document

A record is written as a table with its fields by name, or as an array
with its fields in order; fields that are not known are ignored.  A field
with a default may be missing.  A dictionary is written as a table only.
-/

namespace Cascade.Config

open Toml (Value)

/-- Where a record has its fields: by position or by name.  A date has none
that is known. -/
def fields? : Value → Option (Nat → String → Option Value)
  | .table entries => some fun _ name => entries.lookup name
  | .array elements => some fun i _ => elements[i]?
  | .datetime => some fun _ _ => none
  | _ => none

/-- A field with a default. -/
def optional {α : Type} (default : α) (decode : Value → Option α) : Option Value → Option α
  | none => some default
  | some v => decode v

/-- A text. -/
def decodeText : Value → Option String
  | .string s => some s
  | _ => none

/-- A truth value. -/
def decodeFlag : Value → Option Bool
  | .boolean b => some b
  | _ => none

/-- A number of 64 bits without a sign. -/
def decodeCount : Value → Option Nat
  | .integer i => if 0 ≤ i && i.toNat < Text.countLimit then some i.toNat else none
  | _ => none

/-- A list. -/
def decodeList {α : Type} (decode : Value → Option α) : Value → Option (List α)
  | .array elements => elements.mapM decode
  | _ => none

/-- A dictionary. -/
def decodeEntries {α : Type} (decode : Value → Option α) : Value → Option (Std.TreeMap String α)
  | .table entries =>
    entries.foldlM (fun m (k, v) => (decode v).map (m.insert k)) (∅ : Std.TreeMap String α)
  | _ => none

/-- A storage mode by its exact name.  The name may also be the only key of
a table, with nothing below it. -/
def decodeMode : Value → Option Store.Mode
  | .string name | .table [(name, .table [])] | .table [(name, .array [])] =>
    if name = "file" then some .file
    else if name = "memory" then some .memory
    else none
  | _ => none

/-- The settings of a run. -/
def decodeSettings (v : Value) : Option Settings := do
  let field ← fields? v
  return { maxConcurrency := ← optional 0 decodeCount (field 0 "max_concurrency")
           storage := ← optional .file decodeMode (field 1 "hash_storage_mode") }

/-- A declared dependency. -/
def decodeDeclaration (v : Value) : Option Declaration := do
  let field ← fields? v
  return { path := ← (← field 0 "path") |> decodeText
           skipBuild := ← optional false decodeFlag (field 1 "skip_build")
           hashExclude := ← optional [] (decodeList decodeText) (field 2 "hash_exclude") }

/-- The scripts of a project. -/
def decodeActions (v : Value) : Option Actions := do
  let field ← fields? v
  let script (i : Nat) (name : String) : Option (Option String) :=
    optional none (fun v => (decodeText v).map some) (field i name)
  return ⟨← script 0 "build", ← script 1 "deploy", ← script 2 "render", ← script 3 "purge"⟩

/-- A hook. -/
def decodeHook (v : Value) : Option HookEntry := do
  let field ← fields? v
  return { events := ← (← field 0 "events") |> decodeList decodeText
           command := ← (← field 1 "command") |> decodeText }

/-- The configuration in the table of a document. -/
def decode (entries : List (String × Value)) : Option Config := do
  if !Value.areEntriesRepresentable entries then none
  let section? (name : String) : Option Value := entries.lookup name
  return { settings := ← optional empty.settings decodeSettings (section? "config")
           dependencies := ← optional ∅ (decodeEntries decodeDeclaration) (section? "dependency")
           actions := ← optional empty.actions decodeActions (section? "actions")
           images := ← optional ∅ (decodeEntries decodeText) (section? "images")
           commands := ← optional ∅ (decodeEntries decodeText) (section? "commands")
           hooks := ← optional [] (decodeList decodeHook) (section? "hook") }

end Cascade.Config
