import Cascade.Shell.Utility.Files
import Cascade.Shell.Utility.Text

/-!
# Utilities that change text

Programs that pass on their input with some of its bytes, fields or lines
replaced or left out.  Each answers its exit status.
-/

namespace Cascade.Shell.Utility

/-! ## Bytes -/

/-- The characters that a set for `tr` stands for, in order. -/
def charsOfSet : Nat → List Char → List Char
  | 0, _ | _, [] => []
  | fuel + 1, '[' :: ':' :: rest =>
    let name := String.ofList (rest.takeWhile Char.isAlpha)
    let members := (List.range 128).map Char.ofNat |>.filter (classHolds name)
    members ++ charsOfSet fuel (rest.drop (name.length + 2))
  | fuel + 1, '\\' :: c :: rest =>
    let d := match escapedChar? c with
      | some b => Char.ofNat b.toNat
      | none => c
    d :: charsOfSet fuel rest
  | fuel + 1, c :: '-' :: d :: rest =>
    (List.range (d.toNat + 1 - c.toNat)).map (fun n => Char.ofNat (c.toNat + n)) ++
      charsOfSet fuel rest
  | fuel + 1, c :: rest => c :: charsOfSet fuel rest

/-- The bytes that a set for `tr` stands for, in order. -/
def bytesOfSet (set : String) : List UInt8 :=
  utf8 (charsOfSet (set.toList.length + 1) set.toList)

/-- The byte that stands in one set where another byte stands in the other;
the last one stands for all behind it. -/
def translated (source target : List UInt8) (b : UInt8) : UInt8 :=
  match source.idxOf? b with
  | some i => target.getD i (target.getLastD b)
  | none => b

/-- Keep one of equal bytes in a row, if they belong to a set. -/
def squeezed (set : List UInt8) : List UInt8 → List UInt8
  | a :: b :: rest =>
    if a = b && set.contains a then squeezed set (b :: rest) else a :: squeezed set (b :: rest)
  | bytes => bytes

/-- Replace or leave out bytes. -/
def tr (words : List String) : Act Nat := do
  let (options, sets) := splitOptions words
  let bytes ← Act.readAll 0
  let isIn (set : List UInt8) (b : UInt8) : Bool :=
    set.contains b != (options.contains 'c' || options.contains 'C')
  match sets.map bytesOfSet with
  | set :: more =>
    if options.contains 'd' then put (bytes.filter (!isIn set ·))
    else
      let changed := match more with
        | target :: _ =>
          if options.contains 'c' then bytes.map fun b =>
            if isIn set b then target.getLastD b else b
          else bytes.map (translated set target)
        | [] => bytes
      put (if options.contains 's' then squeezed (more.headD set) changed else changed)
    return 0
  | [] => missingOperand "tr" "operand"

/-! ## Fields -/

/-- The positions, counted from one, that a list such as `1,3-5,7-` names. -/
def isListed (list : String) (n : Nat) : Bool :=
  (Text.splitAt ',' list.toList).any fun piece =>
    match Text.splitAt '-' piece with
    | [only] => Text.count? (String.ofList only) = some n
    | low :: high :: _ =>
      ((Text.count? (String.ofList low)).getD 1 ≤ n) &&
        (high.isEmpty || n ≤ (Text.count? (String.ofList high)).getD 0)
    | [] => false

/-- The value of an option that is given as `-xvalue` or `-x value`. -/
def optionValue? (letter : Char) : List String → Option String
  | [] => none
  | word :: words =>
    match word.toList with
    | '-' :: c :: rest =>
      if c ≠ letter then optionValue? letter words
      else if rest.isEmpty then words.head?
      else some (String.ofList rest)
    | _ => optionValue? letter words

/-- The operands behind options of which some take a value. -/
def operandsBehind (valued : List Char) : List String → List String
  | [] => []
  | word :: words =>
    match word.toList with
    | ['-', c] =>
      if valued.contains c then operandsBehind valued (words.drop 1)
      else operandsBehind valued words
    | '-' :: _ :: _ => operandsBehind valued words
    | _ => word :: operandsBehind valued words
termination_by words => words.length
decreasing_by all_goals simp only [List.length_drop, List.length_cons]; omega

/-- The members of a list at the positions that are listed. -/
def atListed {α : Type} (list : String) (xs : List α) : List α :=
  ((xs.zipIdx 1).filter fun (_, n) => isListed list n).map (·.1)

/-- Pass on parts of each line. -/
def cut (words : List String) : Act Nat := do
  let delimiter := ((optionValue? 'd' words).bind (·.toUTF8.data.toList.head?)).getD 0x09
  let (bytes, isWhole) ← contentOfAll "cut" (operandsBehind ['d', 'f', 'c', 'b'] words)
  let part (line : List UInt8) : List UInt8 :=
    match optionValue? 'f' words with
    | some list =>
      if !line.contains delimiter then line
      else List.intercalate [delimiter] (atListed list (Text.splitAt delimiter line))
    | none =>
      let list := (optionValue? 'c' words).orElse fun _ => optionValue? 'b' words
      atListed (list.getD "") line
  put (ofLines ((linesOf bytes).map part))
  return if isWhole then 0 else 1

/-! ## Lines -/

/-- Equal lines in a row, each with how often it stands there. -/
def counted : List (List UInt8) → List (List UInt8 × Nat)
  | [] => []
  | line :: lines =>
    match counted lines with
    | (next, n) :: rest =>
      if line = next then (line, n + 1) :: rest else (line, 1) :: (next, n) :: rest
    | [] => [(line, 1)]

/-- Pass on one of equal lines in a row. -/
def uniq (words : List String) : Act Nat := do
  let (options, files) := splitOptions words
  let (bytes, isWhole) ← contentOfAll "uniq" (files.take 1)
  let chosen := (counted (linesOf bytes)).filter fun (_, n) =>
    !(options.contains 'd' && n = 1) && !(options.contains 'u' && n ≠ 1)
  let label (n : Nat) : List UInt8 :=
    let s := toString n
    ("".pushn ' ' (7 - s.length) ++ s ++ " ").toUTF8.data.toList
  put (ofLines (chosen.map fun (line, n) =>
    if options.contains 'c' then label n ++ line else line))
  return if isWhole then 0 else 1

/-- Pass on the input, and write it to files as well. -/
def tee (words : List String) : Act Nat := do
  let (options, files) := splitOptions words
  let bytes ← Act.readAll 0
  put bytes
  let content : ByteArray := ⟨bytes.toArray⟩
  forAll files fun file =>
    change "tee" (shown file) (·.overwrite ⟨file⟩ fun old =>
      if options.contains 'a' then old ++ content else content)

/-! ## Substitution -/

/-- A command that replaces what an expression describes. -/
structure Substitution where
  expression : Expression
  replacement : List Char
  /-- Replace every occurrence, not only the first. -/
  everywhere : Bool

/-- A text up to a delimiter that no backslash stands before. -/
def untilDelimiter (delimiter : Char) : List Char → Option (List Char × List Char)
  | [] => none
  | '\\' :: c :: rest =>
    if c = delimiter then before c (untilDelimiter delimiter rest)
    else before '\\' (before c (untilDelimiter delimiter rest))
  | c :: rest =>
    if c = delimiter then some ([], rest) else before c (untilDelimiter delimiter rest)

/-- Read a substitution, `s/expression/replacement/flags`. -/
def Substitution.of? (script : String) : Option Substitution := do
  match script.toList with
  | 's' :: delimiter :: rest =>
    let (expression, rest) ← untilDelimiter delimiter rest
    let (replacement, flags) ← untilDelimiter delimiter rest
    if flags.all (· = 'g') then
      return ⟨.of (String.ofList expression), replacement, flags.contains 'g'⟩
    else none
  | _ => none

/-- The text that replaces a part of a line; an ampersand stands for the
part. -/
def Substitution.fill (found : List Char) : List Char → List Char
  | [] => []
  | '\\' :: 'n' :: rest => '\n' :: fill found rest
  | '\\' :: c :: rest => c :: fill found rest
  | '&' :: rest => found ++ fill found rest
  | c :: rest => c :: fill found rest

/-- A line with the substitution made.  `atStart` tells whether the line is
whole so far. -/
def Substitution.apply (s : Substitution) : Nat → Bool → List Char → List Char
  | 0, _, line => line
  | fuel + 1, atStart, line =>
    let next (line : List Char) : List Char :=
      match line with
      | c :: rest => c :: s.apply fuel false rest
      | [] => []
    if s.expression.atStart && !atStart then line
    else
      match s.expression.behind? line with
      | none => next line
      | some rest =>
        let found := line.take (line.length - rest.length)
        let text := Substitution.fill found s.replacement
        if !s.everywhere then text ++ rest
        else if found.isEmpty then text ++ next line
        else if rest.isEmpty then text
        else text ++ s.apply fuel false rest

/-- Make substitutions in every line. -/
def sed (words : List String) : Act Nat := do
  let words := words.filter (· ≠ "-e")
  match words with
  | [] => missingOperand "sed" "operand"
  | script :: files =>
    match Substitution.of? script with
    | none =>
      Act.complain "sed: -e expression #1, char 0: unknown command"
      return 1
    | some s =>
      let (bytes, isWhole) ← contentOfAll "sed" files
      let changed := (linesOf bytes).map fun line =>
        let cs := (textOfBytes line).toList
        utf8 (s.apply (cs.length + 1) true cs)
      let edited := ofLines changed
      put (if bytes.getLast? = some 0x0A then edited else edited.dropLast)
      return if isWhole then 0 else 2

end Cascade.Shell.Utility
