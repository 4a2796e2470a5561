import Cascade.Shell.Arithmetic
import Cascade.Shell.Machine

/-!
# Conditions

The conditions of `test`, which compare words and look at files.  Without
any operator, a word is a condition: whether it is not empty.
-/

namespace Cascade.Shell.Utility

/-- Whether a word is an operator with one operand. -/
def isUnary (word : String) : Bool :=
  ["-n", "-z", "-e", "-f", "-d", "-s", "-r", "-w", "-x", "-h", "-L", "-t"].contains word

/-- Whether a word is an operator with two operands. -/
def isBinary (word : String) : Bool :=
  ["=", "==", "!=", "-eq", "-ne", "-lt", "-le", "-gt", "-ge"].contains word

/-- The value of an operator with one operand. -/
def unary (files : TreeFiles) (operator operand : String) : Bool :=
  match operator with
  | "-n" => !operand.isEmpty
  | "-z" => operand.isEmpty
  | "-f" => files.isFile ⟨operand⟩
  | "-d" | "-x" => files.isDirectory ⟨operand⟩
  | "-s" =>
    files.isDirectory ⟨operand⟩ || ((files.read ⟨operand⟩).toOption.any fun b => 0 < b.size)
  | "-h" | "-L" =>
    match files.find ⟨operand⟩ false with
    | .ok (_, .link _) => true
    | _ => false
  | "-t" => false
  | _ => (files.find ⟨operand⟩ true).toOption.isSome

/-- The value of an operator with two operands, or the operand that should
be a number. -/
def binary (left operator right : String) : Except String Bool :=
  match operator with
  | "=" | "==" => .ok (left = right)
  | "!=" => .ok (left ≠ right)
  | _ =>
    match Arithmetic.ofValue? left, Arithmetic.ofValue? right with
    | none, _ => .error left
    | _, none => .error right
    | some a, some b =>
      match operator with
      | "-eq" => .ok (a = b)
      | "-ne" => .ok (a ≠ b)
      | "-lt" => .ok (a < b)
      | "-le" => .ok (a ≤ b)
      | "-gt" => .ok (b < a)
      | _ => .ok (b ≤ a)

/-- The text of a fault about an operand that is no number. -/
def illegalNumber (word : String) : String := "Illegal number: " ++ word

mutual

/-- Conditions of which one has to hold, and the words behind them. -/
def anyOf (files : TreeFiles) : Nat → List String → Except String (Bool × List String)
  | 0, _ => .error "argument expected"
  | depth + 1, words => do
    let (a, rest) ← allOf files depth words
    match rest with
    | "-o" :: rest =>
      let (b, rest) ← anyOf files depth rest
      return (a || b, rest)
    | rest => return (a, rest)

/-- Conditions that all have to hold. -/
def allOf (files : TreeFiles) : Nat → List String → Except String (Bool × List String)
  | 0, _ => .error "argument expected"
  | depth + 1, words => do
    let (a, rest) ← condition files depth words
    match rest with
    | "-a" :: rest =>
      let (b, rest) ← allOf files depth rest
      return (a && b, rest)
    | rest => return (a, rest)

/-- A single condition. -/
def condition (files : TreeFiles) : Nat → List String → Except String (Bool × List String)
  | 0, _ => .error "argument expected"
  | depth + 1, words =>
    match words with
    | left :: operator :: right :: rest =>
      if isBinary operator then
        match binary left operator right with
        | .ok b => .ok (b, rest)
        | .error word => .error (illegalNumber word)
      else if left = "!" then do
        let (b, rest) ← condition files depth words.tail
        return (!b, rest)
      else if left = "(" then do
        match ← anyOf files depth words.tail with
        | (b, ")" :: rest) => return (b, rest)
        | _ => throw "closing paren expected"
      else if isUnary left then .ok (unary files left operator, right :: rest)
      else .ok (!left.isEmpty, operator :: right :: rest)
    | [operator, operand] =>
      if operator = "!" then .ok (operand.isEmpty, [])
      else if isUnary operator then .ok (unary files operator operand, [])
      else .ok (!operator.isEmpty, [operand])
    | [word] => .ok (!word.isEmpty, [])
    | [] => .error "argument expected"

end

/-- Whether a condition holds.  Faults are reported in the name of a
program. -/
def testAs (program : String) (words : List String) : Act Nat := do
  let files := (← get).files
  let refuse (text : String) : Act Nat := do
    Act.complainAs (program ++ ": " ++ text)
    return 2
  if words.isEmpty then return 1
  match anyOf files (4 * (words.length + 1)) words with
  | .ok (b, []) => return if b then 0 else 1
  | .ok (_, rest) =>
    refuse (words.getD (words.length - rest.length - 1) "" ++ ": unexpected operator")
  | .error text => refuse text

/-- Whether a condition holds. -/
def test (words : List String) : Act Nat := testAs "test" words

/-- A condition between brackets. -/
def bracket (words : List String) : Act Nat := do
  if words.getLast? = some "]" then testAs "[" words.dropLast
  else
    Act.complainAs "[: missing ]"
    return 2

end Cascade.Shell.Utility
