import Cascade.Log
import Cascade.Text.Blank
import Cascade.Text.Count
import Cascade.Text.LowerCase

/-!
# Which entries are shown

A filter is a list of directives.  Each names the level up to which
entries are shown, for all entries or for those of some topics, and the
most specific directive for an entry decides.

A directive is written `level`, `target`, or `target[span…]=level`.  The
tool has no spans, so a directive for spans decides nothing unless it only
names fields that an entry must have.
-/

namespace Cascade.Log

/-- A directive of a filter. -/
structure Directive where
  /-- The rank of the last level that is shown; zero shows nothing. -/
  rank : Nat
  /-- The start of the targets it is about; `none` stands for all. -/
  target : Option String
  /-- Whether it is about entries inside spans of some name. -/
  hasSpan : Bool
  /-- The names of the fields, each with whether it asks for a value. -/
  fields : List (String × Bool)
deriving Repr, DecidableEq

namespace Directive

/-- A directive for all entries. -/
def everywhere (rank : Nat) : Directive := ⟨rank, none, false, []⟩

/-- The rank of a level by its name or number; zero shows nothing. -/
def rank? (s : String) : Option Nat :=
  let names := ["off", "error", "warn", "info", "debug", "trace"]
  match Text.count? s with
  | some n => if n ≤ 5 then some n else none
  | none =>
    if s.isEmpty then some 1
    else names.idxOf? (String.ofList (s.toList.map Char.toLower))

/-- How far the reading of a directive has come. -/
inductive Reading where
  | start
  /-- In a level or a target; its characters so far, backwards. -/
  | levelOrTarget (before : List Char)
  | span (before : List Char)
  | field (before : List Char)
  | behindFields
  | behindSpan
  | level (before : List Char)
deriving Repr, DecidableEq

/-- Whether a level or target may start with a character. -/
def mayStart (c : Char) : Bool :=
  c.isAlphanum || c == '-' || c == ':' || c == '_' || 0x80 ≤ c.toNat

/-- The text of characters that were collected backwards. -/
def textOf (before : List Char) : String := String.ofList before.reverse

/-- Add a field to a directive. -/
def addField (d : Directive) (before : List Char) : Option Directive :=
  match Text.splitAt '=' before.reverse with
  | [[]] | [] => none
  | name :: values =>
    some { d with fields := d.fields ++ [(String.ofList name, !values.isEmpty)] }

/-- Read one character. -/
def next (d : Directive) (r : Reading) (c : Char) : Option (Directive × Reading) :=
  let opensFields := c.toNat = 0x7B
  let closesFields := c.toNat = 0x7D
  match r with
  | .start =>
    if c = '[' then some (d, .span [])
    else if mayStart c then some (d, .levelOrTarget [c])
    else none
  | .levelOrTarget before =>
    if c = '=' then some ({ d with target := some (textOf before) }, .level [])
    else if c = '[' then some ({ d with target := some (textOf before) }, .span [])
    else some (d, .levelOrTarget (c :: before))
  | .span before =>
    if c = ']' then some ({ d with hasSpan := true }, .behindSpan)
    else if opensFields then some ({ d with hasSpan := !before.isEmpty }, .field [])
    else some (d, .span (c :: before))
  | .field before =>
    if closesFields then (d.addField before).map (·, .behindFields)
    else some (d, .field (c :: before))
  | .behindFields => if c = ']' then some (d, .behindSpan) else none
  | .behindSpan => if c = '=' then some (d, .level []) else none
  | .level before => some (d, .level (c :: before))

/-- The directive at the end of a text. -/
def finish (d : Directive) : Reading → Option Directive
  | .levelOrTarget before =>
    match rank? (textOf before) with
    | some rank => some { d with rank }
    | none => some { d with target := some (textOf before) }
  | .level [] | .behindSpan => some d
  | .level before => (rank? (textOf before)).map fun rank => { d with rank }
  | _ => none

/-- Read a directive. -/
def parse (s : String) : Option Directive := do
  let (d, r) ← (Text.trim s.toList).foldlM (fun (d, r) c => next d r c) (everywhere 5, .start)
  finish d r

/-- Whether a directive may decide about entries at all. -/
def isStatic (d : Directive) : Bool := !d.hasSpan && d.fields.all (!·.2)

/-- Whether a directive is about an entry. -/
def concerns (d : Directive) (e : Entry) : Bool :=
  (match d.target with
    | some target => target.toList.isPrefixOf e.topic.target.toList
    | none => true) &&
  d.fields.all fun (name, _) => name == "message" || e.fields.any (·.name == name)

/-- Whether a directive says at least as much about its entries as another
one. -/
def isAsSpecific (d other : Directive) : Bool :=
  let width (d : Directive) : Nat := match d.target with
    | some target => target.utf8ByteSize + 1
    | none => 0
  width other < width d ||
    (width other == width d && other.fields.length ≤ d.fields.length)

end Directive

/-- Which entries are shown. -/
structure Filter where
  directives : List Directive
deriving Repr, DecidableEq

namespace Filter

/-- Show all entries down to a level. -/
def upTo (level : Level) : Filter := ⟨[.everywhere level.rank]⟩

/-- A level by its name, in any case and between blanks. -/
def level? (s : String) : Option Level :=
  match Text.lowerCase (Text.trimmed s) with
  | "error" => some .error
  | "warn" | "warning" => some .warn
  | "info" => some .info
  | "debug" => some .debug
  | "trace" => some .trace
  | _ => none

/-- Read a filter: a level, or directives between commas.  No directive at
all shows nothing. -/
def parse (s : String) : Option Filter :=
  match level? s with
  | some level => some (upTo level)
  | none =>
    let pieces := ((Text.splitAt ',' s.toList).filter (!·.isEmpty)).map String.ofList
    (Filter.mk ·) <$> pieces.mapM Directive.parse

/-- The filter of a run: the level on the command line, or else what the
environment says, or else `info`. -/
def choose (level : Option Level) (environment : Option String) : Except String Filter :=
  match level, environment with
  | some level, _ => .ok (upTo level)
  | none, some s =>
    match parse s with
    | some filter => .ok filter
    | none => .error ("invalid DEPDAG_LOG value '" ++ s ++ "'")
  | none, none => .ok (upTo .info)

/-- The directive that decides about an entry: the most specific one, and
of equally specific ones the last. -/
def deciding? (f : Filter) (e : Entry) : Option Directive :=
  (f.directives.filter fun d => d.isStatic && d.concerns e).foldl (fun best d =>
    match best with
    | some b => if d.isAsSpecific b then some d else some b
    | none => some d) none

/-- Whether an entry is shown. -/
def shows (f : Filter) (e : Entry) : Bool :=
  match f.deciding? e with
  | some d => e.level.rank ≤ d.rank
  | none => false

end Filter

end Cascade.Log
