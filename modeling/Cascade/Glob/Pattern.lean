/-!
# Glob patterns

A pattern is a list of tokens.  `?` and `*` stand for one byte and for any
bytes of a path, `[…]` for a byte of a class, and the alternatives of
`{…,…}` may nest.  Between slashes, or at an end of the pattern, `**`
stands for any number of path components.  A backslash takes the next
character literally.
-/

namespace Cascade.Glob

/-- A part of a pattern. -/
inductive Token where
  | literal (c : Char)
  | anyByte
  | anyBytes
  /-- `**/` at the start: nothing, or any components. -/
  | anyPrefix
  /-- `/**` at the end: a slash and whatever follows it. -/
  | anySuffix
  /-- `/**/` in the middle: a slash, or any components between slashes. -/
  | anyInfix
  | charClass (negated : Bool) (ranges : List (Char × Char))
  | alternatives (branches : List (List Token))
deriving Repr, Inhabited

/-- What is wrong with a pattern. -/
inductive Fault where
  | unclosedClass
  | invalidRange (low high : Char)
  | unopenedAlternatives
  | unclosedAlternatives
  | danglingEscape
deriving Repr, DecidableEq

/-- The text of a fault. -/
def Fault.message : Fault → String
  | .unclosedClass => "unclosed character class; missing ']'"
  | .invalidRange low high =>
    "invalid range; '" ++ low.toString ++ "' > '" ++ high.toString ++ "'"
  | .unopenedAlternatives =>
    "unopened alternate group; missing '\x7b' (maybe escape '\x7d' with '[\x7d]'?)"
  | .unclosedAlternatives =>
    "unclosed alternate group; missing '\x7d' (maybe escape '\x7b' with '[\x7b]'?)"
  | .danglingEscape => "dangling '\\'"

/-! ## Character classes -/

/-- A class that is being read: its ranges, the last one first, whether it
is still empty, and whether a hyphen waits for the end of a range. -/
structure ClassDraft where
  negated : Bool
  ranges : List (Char × Char)
  isFirst : Bool
  inRange : Bool

namespace ClassDraft

/-- The class whose bracket has just been opened. -/
def empty : ClassDraft := ⟨false, [], true, false⟩

/-- End the last range with a character. -/
def extend (d : ClassDraft) (c : Char) : Except Fault ClassDraft :=
  match d.ranges with
  | (low, _) :: rest =>
    if c < low then .error (.invalidRange low c)
    else .ok { d with ranges := (low, c) :: rest, isFirst := false, inRange := false }
  | [] => .ok d

/-- Add a character that is not a closing bracket. -/
def add (d : ClassDraft) (c : Char) : Except Fault ClassDraft :=
  if d.inRange then d.extend c
  else if c = '-' && !d.isFirst then .ok { d with inRange := true }
  else .ok { d with ranges := (c, c) :: d.ranges, isFirst := false }

/-- The token of a class that has been read.  A hyphen at the end stands for
itself. -/
def toToken (d : ClassDraft) : Token :=
  .charClass d.negated (d.ranges.reverse ++ if d.inRange then [('-', '-')] else [])

end ClassDraft

/-! ## Patterns -/

/-- A pattern that is being read.  `tokens` is the current branch, its last
token first.  For each open brace, `groups` holds the branches that are
complete and the branch around the brace. -/
structure Draft where
  /-- The character before the one that comes next. -/
  last : Option Char
  tokens : List Token
  groups : List (List (List Token) × List Token)

namespace Draft

/-- Nothing has been read. -/
def empty : Draft := ⟨none, [], []⟩

/-- Add a token behind the character `c`. -/
def push (d : Draft) (c : Char) (t : Token) : Draft :=
  { d with last := some c, tokens := t :: d.tokens }

/-- Open a group of alternatives. -/
def openGroup (d : Draft) (c : Char) : Draft :=
  ⟨some c, [], ([], d.tokens) :: d.groups⟩

/-- Begin the next alternative; outside of braces a comma stands for
itself. -/
def nextBranch (d : Draft) : Draft :=
  match d.groups with
  | (done, outer) :: groups =>
    ⟨some ',', [], (done ++ [d.tokens.reverse], outer) :: groups⟩
  | [] => d.push ',' (.literal ',')

/-- Close the innermost group of alternatives. -/
def closeGroup (d : Draft) (c : Char) : Except Fault Draft :=
  match d.groups with
  | (done, outer) :: groups =>
    .ok ⟨some c, .alternatives (done ++ [d.tokens.reverse]) :: outer, groups⟩
  | [] => .error .unopenedAlternatives

/-- Whether an open group separates branches here. -/
def isInGroup (d : Draft) : Bool := !d.groups.isEmpty

/-- Two stars that stand for themselves one by one. -/
def pushStars (d : Draft) : Draft := (d.push '*' .anyBytes).push '*' .anyBytes

/-- Replace the slash before two stars.  Stars behind a `**` that stands for
components add nothing. -/
def joinStars (d : Draft) (c : Char) (t : Token) : Draft :=
  match d.tokens with
  | .anyPrefix :: _ | .anySuffix :: _ => { d with last := some c }
  | _ :: rest => { d with last := some c, tokens := t :: rest }
  | [] => { d with last := some c }

/-- Whether two stars may stand for components behind what has been read. -/
def mayJoin (d : Draft) : Bool :=
  match d.last with
  | some c => c = '/' || (d.isInGroup && (c = ',' || c.toNat = 0x7B))
  | none => false

end Draft

/-- Read the rest of a pattern, inside a class if there is one. -/
def parseFrom : Option ClassDraft → Draft → List Char → Except Fault Draft
  | some _, _, [] => .error .unclosedClass
  | none, d, [] => .ok d
  | some k, d, c :: rest =>
    if c = ']' && !k.isFirst then parseFrom none (d.push c k.toToken) rest
    else
      match k.add c with
      | .error fault => .error fault
      | .ok k => parseFrom (some k) d rest
  | none, d, '?' :: rest => parseFrom none (d.push '?' .anyByte) rest
  | none, d, '\\' :: rest =>
    match rest with
    | c :: rest => parseFrom none (d.push c (.literal c)) rest
    | [] => .error .danglingEscape
  | none, d, '[' :: rest =>
    match rest with
    | '!' :: rest | '^' :: rest => parseFrom (some { ClassDraft.empty with negated := true }) d rest
    | rest => parseFrom (some .empty) d rest
  | none, d, ',' :: rest => parseFrom none d.nextBranch rest
  | none, d, '*' :: rest =>
    match rest with
    | '*' :: rest =>
      if d.tokens.isEmpty then
        match rest with
        | [] => parseFrom none (d.push '*' .anyPrefix) []
        | '/' :: rest => parseFrom none (d.push '/' .anyPrefix) rest
        | rest => parseFrom none d.pushStars rest
      else if d.mayJoin then
        match rest with
        | [] => parseFrom none (d.joinStars '*' .anySuffix) []
        | '/' :: rest => parseFrom none (d.joinStars '/' .anyInfix) rest
        | c :: rest =>
          if d.isInGroup && (c = ',' || c.toNat = 0x7D) then
            parseFrom none (d.joinStars '*' .anySuffix) (c :: rest)
          else parseFrom none d.pushStars (c :: rest)
      else parseFrom none d.pushStars rest
    | rest => parseFrom none (d.push '*' .anyBytes) rest
  | none, d, c :: rest =>
    if c.toNat = 0x7B then parseFrom none (d.openGroup c) rest
    else if c.toNat = 0x7D then
      match d.closeGroup c with
      | .error fault => .error fault
      | .ok d => parseFrom none d rest
    else parseFrom none (d.push c (.literal c)) rest
termination_by _ _ s => s.length

/-- Read a pattern. -/
def parse (s : String) : Except Fault (List Token) := do
  let d ← parseFrom none .empty s.toList
  if d.isInGroup then throw .unclosedAlternatives
  return d.tokens.reverse

end Cascade.Glob
