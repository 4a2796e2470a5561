import Cascade.Glob.Pattern

/-!
# Matching paths against glob patterns

Patterns are matched against the bytes of a path, so `?` stands for one
byte of a longer character, and a class holds the bytes of its characters.
`remainders` lists what can be left of a path behind a token; a pattern
matches when nothing can be left.
-/

namespace Cascade.Glob

/-- The slash that separates path components. -/
def slash : UInt8 := 0x2F

/-- The bytes of a character. -/
def bytesOf (c : Char) : List UInt8 := c.toString.toUTF8.data.toList

/-- All suffixes of a path, longest first, the path itself included. -/
def suffixes : List UInt8 → List (List UInt8)
  | [] => [[]]
  | b :: rest => (b :: rest) :: suffixes rest

/-- What is left of a path behind each of its slashes. -/
def behindSlashes : List UInt8 → List (List UInt8)
  | [] => []
  | b :: rest => if b = slash then rest :: behindSlashes rest else behindSlashes rest

/-- What is left behind a literal, if it comes first. -/
def dropLiteral? : List UInt8 → List UInt8 → Option (List UInt8)
  | [], s => some s
  | b :: literal, c :: s => if b = c then dropLiteral? literal s else none
  | _ :: _, [] => none

/-- The byte ranges of a range of characters: the bytes of the first
character but its last, the range up to the first byte of the last
character, and the rest of that one. -/
def byteRanges (range : Char × Char) : List (UInt8 × UInt8) :=
  let single (b : UInt8) : UInt8 × UInt8 := (b, b)
  let low := bytesOf range.1
  let high := bytesOf range.2
  if range.1 = range.2 then low.map single
  else
    low.dropLast.map single ++ [(low.getLastD 0, high.headD 0)] ++ high.tail.map single

/-- Whether a class holds a byte. -/
def classHolds (negated : Bool) (ranges : List (Char × Char)) (b : UInt8) : Bool :=
  let inside := (ranges.flatMap byteRanges).any fun (low, high) => low ≤ b && b ≤ high
  inside != negated

/-- Keep one of several equally long remainders. -/
def distinct (remainders : List (List UInt8)) : List (List UInt8) :=
  remainders.foldr (fun s kept => if kept.any (·.length = s.length) then kept else s :: kept) []

mutual

/-- Whether a token asks for nothing: alternatives of which each is empty. -/
def asksNothing : Token → Bool
  | .alternatives branches => branchesAskNothing branches
  | _ => false

/-- Whether no token of a list asks for anything. -/
def listAsksNothing : List Token → Bool
  | [] => true
  | t :: rest => asksNothing t && listAsksNothing rest

/-- Whether no branch asks for anything. -/
def branchesAskNothing : List (List Token) → Bool
  | [] => true
  | ts :: rest => listAsksNothing ts && branchesAskNothing rest

end

mutual

/-- What can be left of a path behind a token. -/
def remainders : Token → List UInt8 → List (List UInt8)
  | .literal c, s => (dropLiteral? (bytesOf c) s).toList
  | .anyByte, s => if s.isEmpty then [] else [s.tail]
  | .anyBytes, s => suffixes s
  | .anyPrefix, s => s :: behindSlashes s
  | .anySuffix, s =>
    match s with
    | b :: rest => if b = slash then suffixes rest else []
    | [] => []
  | .anyInfix, s =>
    match s with
    | b :: rest => if b = slash then rest :: behindSlashes rest else []
    | [] => []
  | .charClass negated ranges, s =>
    match s with
    | b :: rest => if classHolds negated ranges b then [rest] else []
    | [] => []
  | .alternatives branches, s =>
    if branchesAskNothing branches then [s] else branchRemainders branches s

/-- What can be left behind all tokens of a list. -/
def listRemainders : List Token → List UInt8 → List (List UInt8)
  | [], s => [s]
  | t :: rest, s => distinct ((remainders t s).flatMap (listRemainders rest))

/-- What can be left behind one of several branches.  Branches that ask for
nothing are passed over. -/
def branchRemainders : List (List Token) → List UInt8 → List (List UInt8)
  | [], _ => []
  | ts :: rest, s =>
    (if listAsksNothing ts then [] else listRemainders ts s) ++ branchRemainders rest s

end

/-- Whether a pattern matches a whole path.  Two stars alone match any
path. -/
def isMatch (pattern : List Token) (path : String) : Bool :=
  match pattern with
  | [.anyPrefix] => true
  | pattern => (listRemainders pattern path.toUTF8.data.toList).any (·.isEmpty)

end Cascade.Glob
