import Cascade.Shell.Arithmetic
import Cascade.Shell.Machine
import Cascade.Shell.Pattern

/-!
# Expanding words

A word is expanded into glyphs, characters that remember where they come
from.  Unquoted values are then split into fields, and a field with
an unquoted pattern in it is replaced by the paths that fit.

How a script in a word is run is not known here; `substitute` answers what
it writes.
-/

namespace Cascade.Shell

/-- Where a character of a word comes from. -/
inductive Origin where
  | literal
  | value
  | quoted
deriving Repr, DecidableEq

/-- A character of an expanded word, or a mark between characters. -/
inductive Glyph where
  | char (c : Char) (origin : Origin)
  /-- A quoted part, which makes a field even if it holds no character. -/
  | part
  /-- The end of an argument. -/
  | gap
  /-- There are no arguments, so that quotes around them make no field. -/
  | nothing
deriving Repr, DecidableEq

/-- The characters of a text. -/
def glyphsOf (origin : Origin) (s : String) : List Glyph := s.toList.map (.char · origin)

/-- The text of an expanded word that is not split. -/
def textOf (gs : List Glyph) : String :=
  String.ofList (gs.filterMap fun
    | .char c _ => some c
    | .gap => some ' '
    | _ => none)

/-- The pattern of an expanded word. -/
def patternOf (gs : List Glyph) : Pattern :=
  .of (gs.filterMap fun
    | .char c origin => some (c, origin = .quoted)
    | _ => none)

/-! ## Parameters -/

/-- The number by which a shell calls itself. -/
def ownNumber : Nat := 4242

/-- The value of a parameter, if it has one. -/
def parameter? (name : String) : Act (Option String) := do
  let m ← get
  match name with
  | "?" => return some (toString m.status)
  | "$" => return some (toString ownNumber)
  | "#" => return some (toString m.arguments.length)
  | "0" => return some "sh"
  | "-" => return some ""
  | "!" => return none
  | "@" | "*" => return if m.arguments.isEmpty then none else some (" ".intercalate m.arguments)
  | name =>
    match name.toNat? with
    | some n => return m.arguments[n - 1]?
    | none => Act.lookup? name

/-- The arguments of the shell, as an unquoted or quoted part of a word. -/
def argumentGlyphs (name : String) (quoted : Bool) : Act (List Glyph) := do
  let arguments := (← get).arguments
  let origin : Origin := if quoted then .quoted else .value
  if arguments.isEmpty then return if quoted && name = "@" then [.nothing] else []
  if quoted && name = "*" then return glyphsOf .quoted (" ".intercalate arguments)
  let marks (a : String) : List Glyph := (if quoted then [.part] else []) ++ glyphsOf origin a
  return List.intercalate [.gap] (arguments.map marks)

/-- Stop because of a fault in a word. -/
def failExpansion {α : Type} (text : String) : Act α := do
  Act.complainAs text
  throw (.exit 2)

/-- What is left of a value behind a start that fits a pattern. -/
def dropStart (longest : Bool) (p : Pattern) (value : List Char) : List Char :=
  let cuts := (List.range (value.length + 1)).filter fun n => p.fits (value.take n)
  match if longest then cuts.getLast? else cuts.head? with
  | some n => value.drop n
  | none => value

/-- What is left of a value before an end that fits a pattern. -/
def dropEnd (longest : Bool) (p : Pattern) (value : List Char) : List Char :=
  let cuts := (List.range (value.length + 1)).filter fun n => p.fits (value.drop n)
  match if longest then cuts.head? else cuts.getLast? with
  | some n => value.take n
  | none => value

/-- The value of an arithmetic expression. -/
def arithmetic (expression : String) : Act String := do
  let bindings := (← get).bindings
  let value (name : String) : String := (bindings[name]?.map (·.value)).getD ""
  let result := do
    let e ← Arithmetic.read expression
    (e.evaluate value).run []
  match result with
  | .ok (n, changes) =>
    for (name, n) in changes.reverse do
      Act.assign name (toString n.toInt)
    return toString n.toInt
  | .error fault => failExpansion (fault.text expression)

/-! ## Words -/

mutual

/-- Expand a word. -/
def expandWord (substitute : String → Act String) : Word → Act (List Glyph)
  | [] => return []
  | p :: ps => return (← expandPiece substitute p) ++ (← expandWord substitute ps)

/-- Expand a piece of a word. -/
def expandPiece (substitute : String → Act String) : Piece → Act (List Glyph)
  | .text s quoted =>
    return if quoted then .part :: glyphsOf .quoted s else glyphsOf .literal s
  | .substitution script quoted =>
    return glyphsOf (if quoted then .quoted else .value) (← substitute script)
  | .arithmetic e quoted => do
    let expression := textOf (← expandWord substitute e)
    return glyphsOf (if quoted then .quoted else .value) (← arithmetic expression)
  | .parameter name query word quoted => do
    let origin : Origin := if quoted then .quoted else .value
    let value? ← parameter? name
    let isAbsent (orEmpty : Bool) : Bool := value?.isNone || (orEmpty && value? = some "")
    let plain : Act (List Glyph) :=
      if name = "@" || name = "*" then argumentGlyphs name quoted
      else return glyphsOf origin (value?.getD "")
    let other : Act (List Glyph) :=
      return (← expandWord substitute word).map fun
        | .char c .literal => .char c .value
        | g => g
    match query with
    | .value =>
      if value?.isNone && name ≠ "@" && name ≠ "*" && (← get).options.contains 'u' then
        failExpansion (name ++ ": parameter not set")
      else plain
    | .length => return glyphsOf origin (toString (value?.getD "").utf8ByteSize)
    | .orWord orEmpty => if isAbsent orEmpty then other else plain
    | .andWord orEmpty => if isAbsent orEmpty then return [] else other
    | .orAssign orEmpty =>
      if isAbsent orEmpty then
        let value := textOf (← other)
        Act.assign name value
        return glyphsOf origin value
      else plain
    | .orFault orEmpty =>
      if isAbsent orEmpty then
        let text := textOf (← other)
        let missing := if orEmpty then "parameter not set or null" else "parameter not set"
        failExpansion (name ++ ": " ++ if text.isEmpty then missing else text)
      else plain
    | .withoutStart longest =>
      let p := patternOf (← other)
      return glyphsOf origin (String.ofList (dropStart longest p (value?.getD "").toList))
    | .withoutEnd longest =>
      let p := patternOf (← other)
      return glyphsOf origin (String.ofList (dropEnd longest p (value?.getD "").toList))

end

/-! ## Fields -/

/-- The fields that were split off, the field that has begun, and whether
blanks have ended the last field. -/
structure Splitting where
  fields : List (List Glyph)
  current : Option (List Glyph)
  behindBlank : Bool

namespace Splitting

/-- End the field that has begun. -/
def close (s : Splitting) (behindBlank : Bool) : Splitting :=
  { fields := s.fields ++ s.current.toList, current := none, behindBlank }

/-- Go on with a glyph. -/
def add (separators : List Char) (s : Splitting) (g : Glyph) : Splitting :=
  match g with
  | .nothing => s
  | .gap => s.close false
  | .part => { s with current := some (s.current.getD []) }
  | .char c origin =>
    if origin = .value && separators.contains c then
      if c = ' ' || c = '\t' || c = '\n' then
        if s.current.isSome then s.close true else s
      else if s.behindBlank then { s with behindBlank := false }
      else { s with current := some (s.current.getD []) }.close false
    else { s with current := some (s.current.getD [] ++ [g]), behindBlank := false }

end Splitting

/-- The fields of an expanded word. -/
def splitFields (separators : List Char) (gs : List Glyph) : List (List Glyph) :=
  let gs := if gs.contains .nothing then gs.filter (· ≠ .part) else gs
  ((gs.foldl (Splitting.add separators) ⟨[], none, false⟩).close false).fields

/-- The characters that separate fields. -/
def separators : Act (List Char) := return ((← Act.lookup? "IFS").getD " \t\n").toList

/-! ## Paths -/

/-- Expanded names between slashes. -/
def splitNames (gs : List Glyph) : List (List Glyph) :=
  gs.foldr (fun g names =>
    match g, names with
    | .char '/' _, names => [] :: names
    | g, name :: names => (g :: name) :: names
    | g, [] => [[g]]) [[]]

/-- The paths that begin with `path` and go on with names that fit. -/
def pathsBehind (files : TreeFiles) : String → List (List Glyph) → List String
  | path, [] => [path]
  | path, name :: names =>
    let p := patternOf name
    let goOn (s : String) : List String :=
      if names.isEmpty then [path ++ s] else pathsBehind files (path ++ s ++ "/") names
    if !p.isOpen then
      let s := String.ofList p.text
      let isThere := s.isEmpty || !names.isEmpty ||
        (files.find ⟨path ++ s⟩ false).toOption.isSome
      if isThere then goOn s else []
    else
      let entries := (files.list ⟨if path.isEmpty then "." else path⟩).toOption.getD []
      let fitting := ("." :: ".." :: entries.map (·.name)).filter fun s =>
        p.fits s.toList && (s.toList.head? ≠ some '.' || p.head? = some (.char '.'))
      fitting.flatMap goOn

/-- The paths that fit a field, or the field itself if there are none. -/
def expandPaths (files : TreeFiles) (gs : List Glyph) : List String :=
  if (patternOf gs).isOpen then
    match pathsBehind files "" (splitNames gs) with
    | [] => [textOf gs]
    | paths => paths
  else [textOf gs]

/-- The fields of a word. -/
def fieldsOf (substitute : String → Act String) (w : Word) : Act (List String) := do
  let gs ← expandWord substitute w
  let fields := splitFields (← separators) gs
  let files := (← get).files
  return fields.flatMap (expandPaths files)

/-- The text of a word that makes a single field. -/
def valueOf (substitute : String → Act String) (w : Word) : Act String :=
  return textOf (← expandWord substitute w)

end Cascade.Shell
