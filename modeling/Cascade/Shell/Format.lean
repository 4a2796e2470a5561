import Cascade.Shell.Arithmetic
import Cascade.Text.Count

/-!
# Escapes and formats

What `echo` and `printf` make of their arguments.  A format is read into
items once, and is used again as long as there are arguments left.
-/

namespace Cascade.Shell

/-- The bytes of a text. -/
def utf8 (cs : List Char) : List UInt8 := (String.ofList cs).toUTF8.data.toList

/-! ## Escapes -/

/-- The character that a letter behind a backslash stands for. -/
def escapedChar? : Char → Option UInt8
  | 'a' => some 7
  | 'b' => some 8
  | 'e' => some 27
  | 't' => some 9
  | 'n' => some 10
  | 'v' => some 11
  | 'f' => some 12
  | 'r' => some 13
  | '\\' => some 92
  | _ => none

/-- Whether a character is an octal digit. -/
def isOctal (c : Char) : Bool := '0' ≤ c && c ≤ '7'

/-- The byte that octal digits spell. -/
def octalByte (digits : List Char) : UInt8 :=
  UInt8.ofNat (digits.foldl (fun n c => 8 * n + (c.toNat - '0'.toNat)) 0)

/-- What follows a backslash: a byte and the rest.  Without a meaning it is a
backslash.  If `zeroLed` holds, three octal digits may follow a zero. -/
def readEscape (zeroLed : Bool) (cs : List Char) : UInt8 × List Char :=
  match cs with
  | [] => (92, [])
  | c :: rest =>
    if isOctal c then
      let behind := if zeroLed && c = '0' then rest else cs
      let digits := (behind.take 3).takeWhile isOctal
      (octalByte digits, behind.drop digits.length)
    else
      match escapedChar? c with
      | some b => (b, rest)
      | none => (92, cs)

/-- The bytes of a text with escapes, and whether it ends the output. -/
def unescape (fuel : Nat) (cs : List Char) : List UInt8 × Bool :=
  match fuel, cs with
  | 0, _ | _, [] => ([], false)
  | _ + 1, '\\' :: 'c' :: _ => ([], true)
  | fuel + 1, '\\' :: rest =>
    let (b, rest) := readEscape true rest
    let (bs, ends) := unescape fuel rest
    (b :: bs, ends)
  | fuel + 1, c :: rest =>
    let (bs, ends) := unescape fuel rest
    (utf8 [c] ++ bs, ends)

/-- The bytes of a text with escapes, and whether it ends the output. -/
def unescaped (s : String) : List UInt8 × Bool := unescape (s.toList.length + 1) s.toList

/-! ## Formats -/

/-- How an argument is printed. -/
structure Conversion where
  flags : List Char
  width : Nat
  precision : Option Nat
  kind : Char
deriving Repr, DecidableEq

/-- A part of a format. -/
inductive FormatItem where
  | bytes (bytes : List UInt8)
  | argument (conversion : Conversion)
  /-- The end of all output. -/
  | finish
deriving Repr, DecidableEq

/-- Read the part of a conversion behind the percent sign. -/
def readConversion (cs : List Char) : Option (Conversion × List Char) :=
  let isFlag (c : Char) : Bool := ['-', '+', ' ', '0', '#'].contains c
  let flags := cs.takeWhile isFlag
  let cs := cs.dropWhile isFlag
  let width := Text.decimal (cs.takeWhile Char.isDigit)
  let cs := cs.dropWhile Char.isDigit
  let (precision, cs) := match cs with
    | '.' :: rest =>
      (some (Text.decimal (rest.takeWhile Char.isDigit)), rest.dropWhile Char.isDigit)
    | cs => (none, cs)
  match cs with
  | kind :: rest => some (⟨flags, width, precision, kind⟩, rest)
  | [] => none

/-- The items of a format. -/
def readFormat (fuel : Nat) (cs : List Char) : List FormatItem :=
  match fuel, cs with
  | 0, _ | _, [] => []
  | _ + 1, '\\' :: 'c' :: _ => [.finish]
  | fuel + 1, '\\' :: rest =>
    let (b, rest) := readEscape false rest
    .bytes [b] :: readFormat fuel rest
  | fuel + 1, '%' :: '%' :: rest => .bytes [37] :: readFormat fuel rest
  | fuel + 1, '%' :: rest =>
    match readConversion rest with
    | some (c, rest) => .argument c :: readFormat fuel rest
    | none => [.bytes [37]]
  | fuel + 1, c :: rest => .bytes (utf8 [c]) :: readFormat fuel rest

/-- The items of a format. -/
def formatItems (s : String) : List FormatItem := readFormat (s.toList.length + 1) s.toList

/-- Fill a field up to its width. -/
def Conversion.pad (c : Conversion) (bytes : List UInt8) : List UInt8 :=
  let fill := List.replicate (c.width - bytes.length) 0x20
  if c.flags.contains '-' then bytes ++ fill else fill ++ bytes

/-- A number as a conversion prints it. -/
def Conversion.number (c : Conversion) (n : Int64) : List UInt8 :=
  let isSigned := c.kind = 'd' || c.kind = 'i'
  let size := if isSigned then n.toInt.natAbs else n.toUInt64.toNat
  let base := match c.kind with
    | 'o' => 8
    | 'x' | 'X' => 16
    | _ => 10
  let digits := Nat.toDigits base size
  let digits := if c.kind = 'X' then digits.map Char.toUpper else digits
  let sign : List Char :=
    if isSigned && n < 0 then ['-']
    else if isSigned && c.flags.contains '+' then ['+']
    else if isSigned && c.flags.contains ' ' then [' ']
    else []
  let least := match c.precision with
    | some p => p
    | none =>
      if c.flags.contains '0' && !c.flags.contains '-' then c.width - sign.length else 0
  c.pad (utf8 (sign ++ List.replicate (least - digits.length) '0' ++ digits))

/-- Print an argument.  The answer tells whether it ends the output, and
whether it is a number if it should be one. -/
def Conversion.print (c : Conversion) (argument : String) : List UInt8 × Bool × Bool :=
  let cut (bytes : List UInt8) : List UInt8 := match c.precision with
    | some p => bytes.take p
    | none => bytes
  match c.kind with
  | 's' => (c.pad (cut (utf8 argument.toList)), false, true)
  | 'c' => (c.pad ((utf8 argument.toList).take 1), false, true)
  | 'b' =>
    let (bytes, ends) := unescaped argument
    (c.pad (cut bytes), ends, true)
  | _ =>
    match argument.toList with
    | '\'' :: d :: _ | '"' :: d :: _ => (c.number (Int64.ofNat d.toNat), false, true)
    | _ =>
      match Arithmetic.ofValue? argument with
      | some n => (c.number n, false, true)
      | none => (c.number 0, false, false)

/-- What was printed, the arguments that are left, the arguments that are no
numbers, and whether the output has ended. -/
structure Printing where
  bytes : List UInt8
  arguments : List String
  faulty : List String
  ended : Bool

/-- Print an item. -/
def Printing.add (p : Printing) (item : FormatItem) : Printing :=
  if p.ended then p
  else
    match item with
    | .finish => { p with ended := true }
    | .bytes bs => { p with bytes := p.bytes ++ bs }
    | .argument c =>
      let argument := p.arguments.headD ""
      let (bs, ended, isNumber) := c.print argument
      { bytes := p.bytes ++ bs
        arguments := p.arguments.tail
        faulty := p.faulty ++ if isNumber then [] else [argument]
        ended }

/-- Print arguments with a format, which is used again at most `rounds`
times. -/
def printRounds (items : List FormatItem) : Nat → Printing → Printing
  | 0, p => p
  | rounds + 1, p =>
    let left := p.arguments.length
    let p := items.foldl Printing.add p
    if p.ended || p.arguments.isEmpty || p.arguments.length = left then p
    else printRounds items rounds p

/-- Print arguments with a format. -/
def printFormat (format : String) (arguments : List String) : Printing :=
  printRounds (formatItems format) (arguments.length + 1) ⟨[], arguments, [], false⟩

end Cascade.Shell
