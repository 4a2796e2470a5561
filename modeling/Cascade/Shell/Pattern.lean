import Cascade.Shell.Lexical

/-!
# Patterns

Two notations for sets of texts that share their bracket expressions.  A
shell pattern describes a whole text; a basic regular expression describes a
part of a line.
-/

namespace Cascade.Shell

/-! ## Bracket expressions -/

/-- A set of characters. -/
structure Bracket where
  negated : Bool
  ranges : List (Char × Char)
  classes : List String
deriving Repr, DecidableEq

/-- Whether a named class holds a character. -/
def classHolds (name : String) (c : Char) : Bool :=
  match name with
  | "alpha" => c.isAlpha
  | "digit" => c.isDigit
  | "alnum" => c.isAlphanum
  | "upper" => c.isUpper
  | "lower" => c.isLower
  | "space" => c = ' ' || (0x09 ≤ c.toNat && c.toNat ≤ 0x0D)
  | "blank" => isSpace c
  | "xdigit" => c.isDigit || ('a' ≤ c && c ≤ 'f') || ('A' ≤ c && c ≤ 'F')
  | "punct" => 0x21 ≤ c.toNat && c.toNat ≤ 0x7E && !c.isAlphanum
  | _ => false

/-- Whether a set holds a character. -/
def Bracket.holds (b : Bracket) (c : Char) : Bool :=
  (b.ranges.any (fun (low, high) => low ≤ c && c ≤ high) || b.classes.any (classHolds · c)) !=
    b.negated

/-- Read the members of a set up to the bracket that closes it.  A bracket
that comes first is a member. -/
def Bracket.readMembers (fuel : Nat) (first : Bool) (b : Bracket) (cs : List Char) :
    Option (Bracket × List Char) :=
  match fuel, cs with
  | 0, _ | _, [] => none
  | fuel + 1, ']' :: rest =>
    if first then readMembers fuel false { b with ranges := b.ranges ++ [(']', ']')] } rest
    else some (b, rest)
  | fuel + 1, '[' :: ':' :: rest =>
    let name := rest.takeWhile Char.isAlpha
    readMembers fuel false { b with classes := b.classes ++ [String.ofList name] }
      (rest.drop (name.length + 2))
  | fuel + 1, c :: '-' :: d :: rest =>
    if d = ']' then
      readMembers fuel false { b with ranges := b.ranges ++ [(c, c), ('-', '-')] } (d :: rest)
    else readMembers fuel false { b with ranges := b.ranges ++ [(c, d)] } rest
  | fuel + 1, c :: rest =>
    readMembers fuel false { b with ranges := b.ranges ++ [(c, c)] } rest

/-- Read a set whose opening bracket has been read. -/
def Bracket.read? (cs : List Char) : Option (Bracket × List Char) :=
  match cs with
  | '!' :: rest | '^' :: rest => readMembers (rest.length + 1) true ⟨true, [], []⟩ rest
  | cs => readMembers (cs.length + 1) true ⟨false, [], []⟩ cs

/-! ## Shell patterns -/

/-- A part of a shell pattern. -/
inductive PatternPart where
  | char (c : Char)
  | anyChar
  | anyText
  | bracket (b : Bracket)
deriving Repr, DecidableEq

/-- A shell pattern. -/
abbrev Pattern := List PatternPart

/-- The pattern of characters of which some are quoted. -/
def Pattern.read (fuel : Nat) (cs : List (Char × Bool)) : Pattern :=
  match fuel, cs with
  | 0, _ | _, [] => []
  | fuel + 1, (c, quoted) :: rest =>
    if quoted then .char c :: read fuel rest
    else if c = '*' then .anyText :: read fuel rest
    else if c = '?' then .anyChar :: read fuel rest
    else if c = '[' then
      match Bracket.read? (rest.map (·.1)) with
      | some (b, left) => .bracket b :: read fuel (rest.drop (rest.length - left.length))
      | none => .char c :: read fuel rest
    else .char c :: read fuel rest

/-- The pattern of some characters. -/
def Pattern.of (cs : List (Char × Bool)) : Pattern := Pattern.read (cs.length + 1) cs

/-- All ends of a text, the text itself first. -/
def endsOf : List Char → List (List Char)
  | [] => [[]]
  | c :: rest => (c :: rest) :: endsOf rest

/-- Whether a pattern describes a text. -/
def Pattern.fits : Pattern → List Char → Bool
  | [], cs => cs.isEmpty
  | .anyText :: parts, cs => (endsOf cs).any (fits parts)
  | .anyChar :: parts, _ :: cs => fits parts cs
  | .char c :: parts, d :: cs => c = d && fits parts cs
  | .bracket b :: parts, d :: cs => b.holds d && fits parts cs
  | _ :: _, [] => false

/-- Whether a pattern stands for more than one text. -/
def Pattern.isOpen (p : Pattern) : Bool :=
  p.any fun
    | .char _ => false
    | _ => true

/-- The text that a pattern stands for, if it is not open. -/
def Pattern.text (p : Pattern) : List Char :=
  p.filterMap fun
    | .char c => some c
    | _ => none

/-! ## Basic regular expressions -/

/-- What one character of a line is compared with. -/
inductive Atom where
  | char (c : Char)
  | anyChar
  | bracket (b : Bracket)
deriving Repr, DecidableEq

/-- Whether an atom stands for a character. -/
def Atom.holds : Atom → Char → Bool
  | .char c, d => c = d
  | .anyChar, _ => true
  | .bracket b, d => b.holds d

/-- A basic regular expression: atoms that may be repeated, and whether it
is bound to the ends of a line. -/
structure Expression where
  atStart : Bool
  items : List (Atom × Bool)
  atEnd : Bool
deriving Repr, DecidableEq

/-- Read an atom. -/
def Atom.read? : List Char → Option (Atom × List Char)
  | [] => none
  | '.' :: rest => some (.anyChar, rest)
  | '\\' :: c :: rest => some (.char c, rest)
  | '[' :: rest =>
    match Bracket.read? rest with
    | some (b, rest) => some (.bracket b, rest)
    | none => some (.char '[', rest)
  | c :: rest => some (.char c, rest)

/-- Read the items of an expression, and whether it ends with a dollar. -/
def Expression.readItems : Nat → List Char → List (Atom × Bool) × Bool
  | 0, _ => ([], false)
  | _ + 1, ['$'] => ([], true)
  | fuel + 1, cs =>
    match Atom.read? cs with
    | none => ([], false)
    | some (atom, rest) =>
      let starred := rest.head? = some '*'
      let (items, atEnd) := readItems fuel (if starred then rest.tail else rest)
      ((atom, starred) :: items, atEnd)

/-- The expression that a text denotes. -/
def Expression.of (s : String) : Expression :=
  let (atStart, cs) := match s.toList with
    | '^' :: rest => (true, rest)
    | cs => (false, cs)
  let (items, atEnd) := readItems (cs.length + 1) cs
  ⟨atStart, items, atEnd⟩

/-- All that can be left of a line behind a repeated atom. -/
def Atom.behindMany (a : Atom) : List Char → List (List Char)
  | [] => [[]]
  | c :: rest => (c :: rest) :: (if a.holds c then a.behindMany rest else [])

/-- Whether items describe the start of a line, or all of it. -/
def Expression.fitsItems (atEnd : Bool) : List (Atom × Bool) → List Char → Bool
  | [], cs => !atEnd || cs.isEmpty
  | (a, true) :: items, cs => (a.behindMany cs).any (fitsItems atEnd items)
  | (a, false) :: items, c :: cs => a.holds c && fitsItems atEnd items cs
  | (_, false) :: _, [] => false

/-- Whether an expression describes a part of a line. -/
def Expression.fits (e : Expression) (line : List Char) : Bool :=
  if e.atStart then fitsItems e.atEnd e.items line
  else (endsOf line).any (fitsItems e.atEnd e.items)

/-- What is left of a line behind the longest part at its start that the
items of an expression describe. -/
def Expression.behind? (e : Expression) (line : List Char) : Option (List Char) :=
  (endsOf line).reverse.find? fun rest =>
    (!e.atEnd || rest.isEmpty) &&
      fitsItems true e.items (line.take (line.length - rest.length))

end Cascade.Shell
