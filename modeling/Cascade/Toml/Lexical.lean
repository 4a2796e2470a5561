import Cascade.Toml.Value

/-!
# The small parts of a TOML document

Characters, comments, keys, strings and numbers.  A reader takes what it
reads from the front of the characters that are left, or fails.
-/

namespace Cascade.Toml

/-- A reader of the characters that are left. -/
abbrev Reader := StateT (List Char) Option

namespace Reader

/-- The next character, which stays. -/
def peek : Reader (Option Char) := do return (← get).head?

/-- Take one character that is known. -/
def expect (c : Char) : Reader Unit := fun s =>
  match s with
  | d :: rest => if c = d then some ((), rest) else none
  | [] => none

/-- Take a character if it comes next. -/
def accept (c : Char) : Reader Bool := fun s =>
  match s with
  | d :: rest => if c = d then some (true, rest) else some (false, s)
  | [] => some (false, s)

/-- Take all characters of a class that come next. -/
def takeWhile (p : Char → Bool) : Reader (List Char) := fun s =>
  some (s.takeWhile p, s.dropWhile p)

/-- Take spaces and tabs. -/
def blanks : Reader Unit := do discard <| takeWhile fun c => c = ' ' || c = '\t'

/-- Whether nothing is left. -/
def atEnd : Reader Bool := do return (← get).isEmpty

end Reader

open Reader

/-! ## Blanks and comments -/

/-- Control characters other than the tab never stand for themselves. -/
def isControl (c : Char) : Bool := (c.toNat < 0x20 && c ≠ '\t') || c.toNat = 0x7F

/-- Take a newline. -/
def newline : Reader Unit := fun s =>
  match s with
  | '\n' :: rest => some ((), rest)
  | '\r' :: '\n' :: rest => some ((), rest)
  | _ => none

/-- Take a comment, up to the end of its line. -/
def comment : Reader Unit := do
  if ← accept '#' then
    discard <| takeWhile fun c => !isControl c

/-- Take the end of a line, or be at the end of the document. -/
def lineEnd : Reader Unit := do
  blanks
  comment
  if ← atEnd then return
  newline

/-- Take blanks, comments and newlines.  Each round takes at least one
character. -/
def fillerUpTo : Nat → Reader Unit
  | 0 => pure ()
  | rounds + 1 => do
    blanks
    comment
    match ← peek with
    | some '\n' | some '\r' => newline; fillerUpTo rounds
    | _ => pure ()

/-- Take all blanks, comments and newlines that come next. -/
def filler : Reader Unit := do fillerUpTo ((← get).length + 1)

/-! ## Strings -/

/-- The value of a hexadecimal digit. -/
def hexDigit? (c : Char) : Option Nat :=
  if '0' ≤ c && c ≤ '9' then some (c.toNat - '0'.toNat)
  else if 'a' ≤ c && c ≤ 'f' then some (c.toNat - 'a'.toNat + 10)
  else if 'A' ≤ c && c ≤ 'F' then some (c.toNat - 'A'.toNat + 10)
  else none

/-- The character whose code point is written in hexadecimal digits. -/
def codePoint? (digits : List Char) : Option Char := do
  let n ← digits.foldlM (fun n c => do return n * 16 + (← hexDigit? c)) 0
  if h : n.isValidChar then some (Char.ofNatAux n h) else none

/-- What an escape of one letter stands for. -/
def simpleEscape? : Char → Option Char
  | 'b' => some '\x08'
  | 't' => some '\t'
  | 'n' => some '\n'
  | 'f' => some '\x0c'
  | 'r' => some '\r'
  | 'e' => some '\x1b'
  | '"' => some '"'
  | '\\' => some '\\'
  | _ => none

/-- Take what follows the backslash of an escape. -/
def escape : Reader Char := fun s =>
  let coded (count : Nat) (rest : List Char) : Option (Char × List Char) :=
    if rest.length < count then none
    else (codePoint? (rest.take count)).map fun c => (c, rest.drop count)
  match s with
  | 'x' :: rest => coded 2 rest
  | 'u' :: rest => coded 4 rest
  | 'U' :: rest => coded 8 rest
  | c :: rest => (simpleEscape? c).map fun d => (d, rest)
  | [] => none

/-- The rest of a string between double quotes.  `fuel` bounds its length. -/
def basicRest : Nat → Reader (List Char)
  | 0 => failure
  | fuel + 1 => fun s =>
    match s with
    | '"' :: rest => some ([], rest)
    | '\\' :: rest => (do let c ← escape; return c :: (← basicRest fuel)).run rest
    | c :: rest => if isControl c then none else (do return c :: (← basicRest fuel)).run rest
    | [] => none

/-- The rest of a string between single quotes. -/
def literalRest : Reader (List Char) := do
  let text ← takeWhile fun c => c ≠ '\'' && !isControl c
  expect '\''
  return text

/-- Take the blanks and newlines behind a backslash that ends a line. -/
def lineGap : Reader Unit := do
  blanks
  newline
  discard <| takeWhile fun c => c = ' ' || c = '\t' || c = '\n' || c = '\r'

/-- The closing quotes of a string in triple quotes: up to two more quotes
belong to the string. -/
def closingQuotes? (q : Char) (s : List Char) : Option (List Char × List Char) :=
  let quotes := (s.takeWhile (· = q)).length
  if quotes < 3 then none
  else
    let inner := min (quotes - 3) 2
    some (List.replicate inner q, s.drop (inner + 3))

/-- Whether characters at the front of a string in triple quotes may stand
there: no control characters but tabs and newlines. -/
def multilineChar? : List Char → Option (Char × List Char)
  | '\r' :: '\n' :: rest => some ('\r', '\n' :: rest)
  | '\n' :: rest => some ('\n', rest)
  | c :: rest => if isControl c then none else some (c, rest)
  | [] => none

/-- The rest of a string between triple double quotes.  `fuel` bounds its
length. -/
def multilineBasicRest : Nat → Reader (List Char)
  | 0 => failure
  | fuel + 1 => fun s =>
    match closingQuotes? '"' s with
    | some (quotes, rest) => some (quotes, rest)
    | none =>
      match s with
      | '\\' :: rest =>
        match rest with
        | ' ' :: _ | '\t' :: _ | '\n' :: _ | '\r' :: _ =>
          (do lineGap; multilineBasicRest fuel).run rest
        | _ => (do let c ← escape; return c :: (← multilineBasicRest fuel)).run rest
      | s => do
        let (c, rest) ← multilineChar? s
        (do return c :: (← multilineBasicRest fuel)).run rest

/-- The rest of a string between triple single quotes.  `fuel` bounds its
length. -/
def multilineLiteralRest : Nat → Reader (List Char)
  | 0 => failure
  | fuel + 1 => fun s =>
    match closingQuotes? '\'' s with
    | some (quotes, rest) => some (quotes, rest)
    | none => do
      let (c, rest) ← multilineChar? s
      (do return c :: (← multilineLiteralRest fuel)).run rest

/-- Take a newline if it comes next. -/
def optionalNewline : Reader Unit := fun s =>
  match s with
  | '\n' :: rest | '\r' :: '\n' :: rest => some ((), rest)
  | s => some ((), s)

/-- Take a string of any of the four kinds. -/
def string : Reader String := fun s =>
  let fuel := s.length + 1
  let text : Option (List Char × List Char) :=
    match s with
    | '"' :: '"' :: '"' :: rest =>
      (do optionalNewline; multilineBasicRest fuel : Reader _).run rest
    | '\'' :: '\'' :: '\'' :: rest =>
      (do optionalNewline; multilineLiteralRest fuel : Reader _).run rest
    | '"' :: rest => (basicRest fuel).run rest
    | '\'' :: rest => literalRest.run rest
    | _ => none
  text.map fun (cs, rest) => (String.ofList cs, rest)

/-! ## Keys -/

/-- Letters, digits, underscores and hyphens need no quotes in a key. -/
def isBareKeyChar (c : Char) : Bool := c.isAlphanum || c = '_' || c = '-'

/-- Take one part of a key. -/
def simpleKey : Reader String := do
  match ← peek with
  | some '"' =>
    if (← get).take 3 = ['"', '"', '"'] then failure
    string
  | some '\'' =>
    if (← get).take 3 = ['\'', '\'', '\''] then failure
    string
  | _ =>
    match ← takeWhile isBareKeyChar with
    | [] => failure
    | cs => return String.ofList cs

/-- Take the parts of a key that are separated by dots. -/
def dottedKeyUpTo : Nat → Reader (List String)
  | 0 => failure
  | parts + 1 => do
    blanks
    let k ← simpleKey
    blanks
    if ← accept '.' then return k :: (← dottedKeyUpTo parts)
    return [k]

/-- Take a key. -/
def key : Reader (List String) := do dottedKeyUpTo ((← get).length + 1)

/-! ## Numbers, truth values, dates -/

/-- Digits of a base, with single underscores between them. -/
def digits? (isDigit : Char → Bool) : List Char → Option (List Char)
  | [] => none
  | [c] => if isDigit c then some [c] else none
  | c :: '_' :: rest =>
    if isDigit c then (digits? isDigit rest).map (c :: ·) else none
  | c :: rest => if isDigit c then (digits? isDigit rest).map (c :: ·) else none

/-- Whether a character is a decimal digit. -/
def isDigit (c : Char) : Bool := '0' ≤ c && c ≤ '9'

/-- The value of digits in a base of at most sixteen. -/
def ofDigits (base : Nat) (cs : List Char) : Nat :=
  cs.foldl (fun n c => n * base + (hexDigit? c).getD 0) 0

/-- Take a sign off the front. -/
def unsigned : List Char → Bool × List Char
  | '+' :: rest => (false, rest)
  | '-' :: rest => (true, rest)
  | cs => (false, cs)

/-- Decimal digits without a leading zero. -/
def decimalDigits? (cs : List Char) : Option (List Char) := do
  let ds ← digits? isDigit cs
  match ds with
  | '0' :: _ :: _ => none
  | ds => some ds

/-- The value of an integer. -/
def integer? (cs : List Char) : Option Int :=
  match cs with
  | '0' :: 'x' :: rest =>
    (digits? (fun c => (hexDigit? c).isSome) rest).map fun ds => (ofDigits 16 ds : Int)
  | '0' :: 'o' :: rest =>
    (digits? (fun c => '0' ≤ c && c ≤ '7') rest).map fun ds => (ofDigits 8 ds : Int)
  | '0' :: 'b' :: rest =>
    (digits? (fun c => c = '0' || c = '1') rest).map fun ds => (ofDigits 2 ds : Int)
  | cs => do
    let (negative, cs) := unsigned cs
    let ds ← decimalDigits? cs
    let n : Int := ofDigits 10 ds
    return if negative then -n else n

/-- The value of a number with a fractional part, an exponent or both. -/
def float? (cs : List Char) : Option FloatLiteral := do
  let (_, cs) := unsigned cs
  if cs = ['i', 'n', 'f'] then return .infinite
  if cs = ['n', 'a', 'n'] then return .notANumber
  let isExponent (c : Char) : Bool := c = 'e' || c = 'E'
  let mantissa := cs.takeWhile (!isExponent ·)
  let whole ← decimalDigits? (mantissa.takeWhile (· ≠ '.'))
  let fraction ←
    match mantissa.dropWhile (· ≠ '.') with
    | [] => some []
    | _ :: rest => digits? isDigit rest
  let exponent ←
    match cs.dropWhile (!isExponent ·) with
    | [] => if fraction.isEmpty then none else some 0
    | _ :: rest =>
      let (negative, rest) := unsigned rest
      (digits? isDigit rest).map fun ds =>
        let n : Int := ofDigits 10 ds
        if negative then -n else n
  return .decimal (ofDigits 10 (whole ++ fraction)) (exponent - fraction.length)

/-- The value of two digits. -/
def twoDigits? : List Char → Option (Nat × List Char)
  | a :: b :: rest => if isDigit a && isDigit b then some (ofDigits 10 [a, b], rest) else none
  | _ => none

/-- The number of days of a month. -/
def daysIn (year month : Nat) : Nat :=
  if month = 2 then
    if year % 4 = 0 && (year % 100 ≠ 0 || year % 400 = 0) then 29 else 28
  else if month = 4 || month = 6 || month = 9 || month = 11 then 30
  else 31

/-- Take a date off the front. -/
def date? (cs : List Char) : Option (List Char) := do
  let (century, cs) ← twoDigits? cs
  let (year, cs) ← twoDigits? cs
  let '-' :: cs := cs | none
  let (month, cs) ← twoDigits? cs
  let '-' :: cs := cs | none
  let (day, cs) ← twoDigits? cs
  if 1 ≤ month && month ≤ 12 && 1 ≤ day && day ≤ daysIn (century * 100 + year) month then
    some cs
  else none

/-- Take a time of the day off the front.  The seconds may be left out. -/
def time? (cs : List Char) : Option (List Char) := do
  let (hour, cs) ← twoDigits? cs
  let ':' :: cs := cs | none
  let (minute, cs) ← twoDigits? cs
  if 23 < hour || 59 < minute then none
  match cs with
  | ':' :: cs =>
    let (second, cs) ← twoDigits? cs
    if 60 < second then none
    match cs with
    | '.' :: cs =>
      if (cs.takeWhile isDigit).isEmpty then none else some (cs.dropWhile isDigit)
    | cs => some cs
  | cs => some cs

/-- Whether characters are the offset of a time zone. -/
def isZone : List Char → Bool
  | ['Z'] | ['z'] => true
  | c :: cs =>
    (c = '+' || c = '-') &&
      match twoDigits? cs with
      | some (hour, ':' :: cs) =>
        match twoDigits? cs with
        | some (minute, []) => hour ≤ 23 && minute ≤ 59
        | _ => false
      | _ => false
  | [] => false

/-- Whether characters are a date, a time or both. -/
def isDatetime (cs : List Char) : Bool :=
  match date? cs with
  | some [] => true
  | some (separator :: rest) =>
    (separator = 'T' || separator = 't' || separator = ' ') &&
      match time? rest with
      | some [] => true
      | some zone => isZone zone
      | none => false
  | none => time? cs = some []

/-- Whether a character ends a value that stands without quotes. -/
def endsScalar (c : Char) : Bool :=
  c = ' ' || c = '\t' || c = '\n' || c = '\r' || c = ',' || c = ']' || c.toNat = 0x7D ||
    c = '#' || c = '=' || c = '"' || c = '\'' || c = '[' || c.toNat = 0x7B

/-- The value that a word without quotes stands for. -/
def scalar? (cs : List Char) : Option Value :=
  if cs = "true".toList then some (.boolean true)
  else if cs = "false".toList then some (.boolean false)
  else
    match integer? cs with
    | some i => some (.integer i)
    | none =>
      match float? cs with
      | some f => some (.float f)
      | none => if isDatetime cs then some .datetime else none

/-- Take a value that stands without quotes.  A date may be joined to a time
by a space. -/
def scalar : Reader Value := do
  let word ← takeWhile (!endsScalar ·)
  let more ← get
  let value :=
    match date? word, more with
    | some [], ' ' :: c :: _ =>
      if isDigit c then
        let time := more.tail.takeWhile (!endsScalar ·)
        (scalar? (word ++ ' ' :: time)).map fun v => (v, more.drop (time.length + 1))
      else (scalar? word).map fun v => (v, more)
    | _, _ => (scalar? word).map fun v => (v, more)
  match value with
  | some (v, more) => set more; return v
  | none => failure

end Cascade.Toml
