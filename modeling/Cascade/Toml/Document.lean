import Cascade.Toml.Lexical
import Cascade.Toml.Tables

/-!
# Reading a TOML document

`parse` accepts the documents of version 1.1 of the format: newlines,
comments and a final comma may stand in inline tables, `\e` and `\xHH` are
escapes, and the seconds of a time may be left out.
-/

namespace Cascade.Toml

open Reader

/-- Values nest at most this deep. -/
def depthLimit : Nat := 80

/-- Close an array or an inline table, or go on behind a comma. -/
def closeOrComma (close : Char) : Reader Bool := do
  if ← accept close then return true
  expect ','
  filler
  accept close

mutual

/-- Take a value.  `fuel` bounds the number of steps and `depth` the nesting
that is still allowed. -/
def valueWithin (fuel depth : Nat) : Reader Value :=
  match fuel with
  | 0 => failure
  | fuel + 1 => do
    match ← peek with
    | some '"' | some '\'' => return .string (← string)
    | some '[' =>
      expect '['
      if depth = 0 then failure
      filler
      if ← accept ']' then return .array []
      return .array (← elementsWithin fuel (depth - 1))
    | some c =>
      if c.toNat = 0x7B then
        expect c
        if depth = 0 then failure
        filler
        if ← accept (Char.ofNat 0x7D) then return .table []
        return .table (toEntries (← inlineWithin fuel (depth - 1) []))
      else scalar
    | none => failure
termination_by fuel

/-- Take the elements of an array, and the bracket that closes it. -/
def elementsWithin (fuel depth : Nat) : Reader (List Value) :=
  match fuel with
  | 0 => failure
  | fuel + 1 => do
    let v ← valueWithin fuel depth
    filler
    if ← closeOrComma ']' then return [v]
    return v :: (← elementsWithin fuel depth)
termination_by fuel

/-- Take the entries of an inline table, and the brace that closes it. -/
def inlineWithin (fuel depth : Nat) (entries : Entries) : Reader Entries :=
  match fuel with
  | 0 => failure
  | fuel + 1 => do
    let path ← key
    expect '='
    blanks
    let v ← valueWithin fuel depth
    let some (_, entries) := entries.addKey path.dropLast (path.getLastD "") v .header | failure
    filler
    if ← closeOrComma (Char.ofNat 0x7D) then return entries
    inlineWithin fuel depth entries
termination_by fuel

end

/-- Take a value.  Each step of the readers takes a character or follows one
that did. -/
def value : Reader Value := do valueWithin (2 * (← get).length + 2) depthLimit

/-- The part of a document that has been read: its tables, and the header
that is in force. -/
structure Draft where
  entries : Entries
  header : List String

/-- Change the table that the header in force names. -/
def Draft.inHeader (d : Draft) (f : Origin → Entries → Option (Origin × Entries)) :
    Option Draft := do
  let (_, entries) ← Entries.update false f d.header .header d.entries
  return { d with entries }

/-- Take one line. -/
def line (d : Draft) : Reader Draft := do
  blanks
  match ← peek with
  | none | some '#' | some '\n' | some '\r' => lineEnd; return d
  | some '[' =>
    expect '['
    let isArray ← accept '['
    let path ← key
    expect ']'
    if isArray then expect ']'
    lineEnd
    let define := if isArray then Entries.appendTable else Entries.defineTable
    let some (_, entries) := define path.dropLast (path.getLastD "") .header d.entries | failure
    return ⟨entries, path⟩
  | some _ =>
    let path ← key
    expect '='
    blanks
    let v ← value
    lineEnd
    let some d := d.inHeader (Entries.addKey path.dropLast (path.getLastD "") v) | failure
    return d

/-- Take all lines.  Each takes at least one character. -/
def linesUpTo : Nat → Draft → Reader Draft
  | 0, d => return d
  | rounds + 1, d => do
    if ← atEnd then return d
    linesUpTo rounds (← line d)

/-- The table that a document stands for.  A byte order mark at its start is
no part of it. -/
def parse (text : String) : Option (List (String × Value)) := do
  let cs := text.toList
  let cs := if cs.head? = some (Char.ofNat 0xFEFF) then cs.tail else cs
  let (d, rest) ← (linesUpTo (cs.length + 1) ⟨[], []⟩).run cs
  if rest.isEmpty then some (toEntries d.entries) else none

end Cascade.Toml
