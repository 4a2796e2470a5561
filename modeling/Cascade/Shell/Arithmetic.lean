import Cascade.Shell.Lexical

/-!
# Arithmetic of the shell

Expressions on signed words of 64 bits, with the operators and the
precedence of C.  A variable counts as the number that its value spells, and
an assignment changes it for what is evaluated after it.
-/

namespace Cascade.Shell

/-- An arithmetic expression. -/
inductive Arithmetic where
  | number (n : Int64)
  | variable (name : String)
  | unary (operator : String) (operand : Arithmetic)
  | binary (operator : String) (left right : Arithmetic)
  | conditional (condition yes no : Arithmetic)
  /-- Assign to a variable; the operator joins the old value with the operand,
  and is empty if the old value does not count. -/
  | assign (name operator : String) (operand : Arithmetic)
deriving Inhabited

/-- Why an expression has no value. -/
inductive ArithmeticFault where
  | expectingPrimary
  | expectingEnd
  | missingParenthesis
  | missingColon
  | divisionByZero
  | illegalNumber (text : String)
deriving Repr, DecidableEq

/-- The text of a fault in an expression. -/
def ArithmeticFault.text (expression : String) (f : ArithmeticFault) : String :=
  let about (what : String) : String :=
    "arithmetic expression: " ++ what ++ ": \"" ++ expression ++ "\""
  match f with
  | .expectingPrimary => about "expecting primary"
  | .expectingEnd => about "expecting EOF"
  | .missingParenthesis => about "expecting ')'"
  | .missingColon => about "expecting ':'"
  | .divisionByZero => about "division by zero"
  | .illegalNumber s => "Illegal number: " ++ s

namespace Arithmetic

/-! ## Numbers -/

/-- The value of a digit. -/
def digitValue (c : Char) : Nat :=
  if c.isDigit then c.toNat - '0'.toNat
  else if 'a' ≤ c && c ≤ 'z' then c.toNat - 'a'.toNat + 10
  else if 'A' ≤ c && c ≤ 'Z' then c.toNat - 'A'.toNat + 10
  else 36

/-- The number that digits of a base spell. -/
def ofDigits? (base : Nat) (digits : List Char) : Option Int64 :=
  if digits.all (digitValue · < base) then
    some (Int64.ofInt (digits.foldl (fun n c => base * n + digitValue c) 0 : Nat))
  else none

/-- The number that a numeral spells. -/
def ofNumeral? (cs : List Char) : Option Int64 :=
  match cs with
  | '0' :: 'x' :: rest | '0' :: 'X' :: rest => ofDigits? 16 rest
  | '0' :: rest => ofDigits? 8 rest
  | cs => if cs.isEmpty then none else ofDigits? 10 cs

/-- The number that the value of a variable spells.  No value is zero. -/
def ofValue? (s : String) : Option Int64 :=
  match Text.trim s.toList with
  | [] => some 0
  | '-' :: rest => (ofNumeral? rest).map (-·)
  | '+' :: rest => ofNumeral? rest
  | cs => ofNumeral? cs

/-! ## Reading -/

/-- A computation that reads characters. -/
abbrev Reader (α : Type) := StateT (List Char) (Except ArithmeticFault) α

/-- The binary operators by rising precedence. -/
def levels : List (List String) :=
  [["||"], ["&&"], ["|"], ["^"], ["&"], ["==", "!="], ["<=", ">=", "<", ">"], ["<<", ">>"],
    ["+", "-"], ["*", "/", "%"]]

/-- All operators, longer ones before those that they start with. -/
def operators : List String :=
  ["<<=", ">>=", "||", "&&", "==", "!=", "<=", ">=", "<<", ">>", "+=", "-=", "*=", "/=", "%=", "&=",
    "|=", "^=", "<", ">", "+", "-", "*", "/", "%", "|", "^", "&", "=", "?", ":", "(", ")", "!", "~"]

/-- The operator that comes next, behind blanks. -/
def peekOperator : Reader (Option String) := do
  modify (·.dropWhile Text.isBlank)
  let cs ← get
  return operators.find? fun o => o.toList.isPrefixOf cs

/-- Pass over an operator. -/
def skip (operator : String) : Reader Unit := modify (·.drop operator.length)

/-- The value and the operator of an assignment. -/
def assigning? (operator : String) : Option String :=
  if ["=", "+=", "-=", "*=", "/=", "%=", "&=", "|=", "^=", "<<=", ">>="].contains operator then
    some (String.ofList operator.toList.dropLast)
  else none

mutual

/-- Read an expression. -/
def readExpression : Nat → Reader Arithmetic
  | 0 => throw .expectingPrimary
  | depth + 1 => do
    let condition ← readLevel levels depth
    if (← peekOperator) = some "?" then
      skip "?"
      let yes ← readExpression depth
      if (← peekOperator) ≠ some ":" then throw .missingColon
      skip ":"
      return .conditional condition yes (← readExpression depth)
    return condition

/-- Read operands that the operators of some levels join. -/
def readLevel (levels : List (List String)) : Nat → Reader Arithmetic
  | 0 => throw .expectingPrimary
  | depth + 1 => do
    match levels with
    | [] => readOperand depth
    | level :: tighter => readMore level tighter (← readLevel tighter depth) depth

/-- Read what follows an operand. -/
def readMore (level : List String) (tighter : List (List String)) (left : Arithmetic) :
    Nat → Reader Arithmetic
  | 0 => throw .expectingPrimary
  | depth + 1 => do
    match ← peekOperator with
    | some operator =>
      if level.contains operator then
        skip operator
        let right ← readLevel tighter depth
        readMore level tighter (.binary operator left right) depth
      else return left
    | none => return left

/-- Read an operand. -/
def readOperand : Nat → Reader Arithmetic
  | 0 => throw .expectingPrimary
  | depth + 1 => do
    match ← peekOperator with
    | some "(" =>
      skip "("
      let e ← readExpression depth
      if (← peekOperator) ≠ some ")" then throw .missingParenthesis
      skip ")"
      return e
    | some operator =>
      if ["+", "-", "!", "~"].contains operator then
        skip operator
        return .unary operator (← readOperand depth)
      else throw .expectingPrimary
    | none =>
      let cs ← get
      match cs with
      | [] => throw .expectingPrimary
      | c :: _ =>
        let text := cs.takeWhile isNameChar
        set (cs.dropWhile isNameChar)
        if c.isDigit then
          match ofNumeral? text with
          | some n => return .number n
          | none => throw .expectingEnd
        else if isNameStart c then
          let name := String.ofList text
          match ← peekOperator with
          | some operator =>
            match assigning? operator with
            | some joining =>
              skip operator
              return .assign name joining (← readExpression depth)
            | none => return .variable name
          | none => return .variable name
        else throw .expectingPrimary

end

/-- The expression that a text denotes.  An empty text denotes zero. -/
def read (s : String) : Except ArithmeticFault Arithmetic := do
  if Text.isAllBlank s then return .number 0
  let cs := s.toList
  let (e, rest) ← (readExpression (24 * (cs.length + 1))).run cs
  if rest.all Text.isBlank then return e else throw .expectingEnd

/-! ## Values -/

/-- The number of a truth value. -/
def ofBool (b : Bool) : Int64 := if b then 1 else 0

/-- The value of a binary operator other than `&&` and `||`. -/
def join (operator : String) (a b : Int64) : Except ArithmeticFault Int64 :=
  match operator with
  | "+" => .ok (a + b)
  | "-" => .ok (a - b)
  | "*" => .ok (a * b)
  | "/" => if b = 0 then .error .divisionByZero else .ok (a / b)
  | "%" => if b = 0 then .error .divisionByZero else .ok (a % b)
  | "|" => .ok (a ||| b)
  | "^" => .ok (a ^^^ b)
  | "&" => .ok (a &&& b)
  | "<<" => .ok (a <<< b)
  | ">>" => .ok (a >>> b)
  | "==" => .ok (ofBool (a = b))
  | "!=" => .ok (ofBool (a ≠ b))
  | "<" => .ok (ofBool (a < b))
  | ">" => .ok (ofBool (b < a))
  | "<=" => .ok (ofBool (a ≤ b))
  | ">=" => .ok (ofBool (b ≤ a))
  | _ => .ok b

/-- The values of variables that an evaluation has changed, the last change
first. -/
abbrev Changes := List (String × Int64)

/-- The value of a variable. -/
def valueOf (value : String → String) (name : String) :
    StateT Changes (Except ArithmeticFault) Int64 := do
  match (← get).lookup name with
  | some n => return n
  | none =>
    match ofValue? (value name) with
    | some n => return n
    | none => throw (.illegalNumber (value name))

/-- The value of an expression, given those of the variables. -/
def evaluate (value : String → String) :
    Arithmetic → StateT Changes (Except ArithmeticFault) Int64
  | .number n => return n
  | .variable name => valueOf value name
  | .unary operator e => do
    let n ← evaluate value e
    match operator with
    | "-" => return -n
    | "!" => return ofBool (n = 0)
    | "~" => return ~~~n
    | _ => return n
  | .binary "&&" a b => do
    if (← evaluate value a) = 0 then return 0
    return ofBool ((← evaluate value b) ≠ 0)
  | .binary "||" a b => do
    if (← evaluate value a) ≠ 0 then return 1
    return ofBool ((← evaluate value b) ≠ 0)
  | .binary operator a b => do
    let x ← evaluate value a
    let y ← evaluate value b
    join operator x y
  | .conditional c a b => do
    if (← evaluate value c) ≠ 0 then evaluate value a else evaluate value b
  | .assign name operator e => do
    let n ← evaluate value e
    let n ← if operator.isEmpty then pure n else do join operator (← valueOf value name) n
    modify ((name, n) :: ·)
    return n

end Arithmetic

end Cascade.Shell
