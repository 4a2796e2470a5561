/-!
# Decoding UTF-8

`decode` turns bytes into a text or tells where and how they fail to be
one: the number of bytes before the fault that are well formed, and the
length of the faulty sequence, unless the bytes end inside a character.
-/

namespace Cascade.Text

/-- Where bytes fail to be a text. -/
structure Utf8Fault where
  validUpTo : Nat
  length : Option Nat
deriving Repr, DecidableEq

/-- What is wrong with the bytes. -/
def Utf8Fault.message (f : Utf8Fault) : String :=
  match f.length with
  | some n =>
    "invalid utf-8 sequence of " ++ toString n ++ " bytes from index " ++ toString f.validUpTo
  | none => "incomplete utf-8 byte sequence from index " ++ toString f.validUpTo

/-- The range of the second byte behind a first byte, and the number of
bytes behind the second.  A byte that starts no character of several bytes
has none. -/
def secondByte? (b : UInt8) : Option (UInt8 × UInt8 × Nat) :=
  if 0xC2 ≤ b && b ≤ 0xDF then some (0x80, 0xBF, 0)
  else if b = 0xE0 then some (0xA0, 0xBF, 1)
  else if b = 0xED then some (0x80, 0x9F, 1)
  else if 0xE1 ≤ b && b ≤ 0xEF then some (0x80, 0xBF, 1)
  else if b = 0xF0 then some (0x90, 0xBF, 2)
  else if 0xF1 ≤ b && b ≤ 0xF3 then some (0x80, 0xBF, 2)
  else if b = 0xF4 then some (0x80, 0x8F, 2)
  else none

/-- Whether a byte continues a character. -/
def isContinuation (b : UInt8) : Bool := 0x80 ≤ b && b ≤ 0xBF

/-- What the bytes at the front are: a character of some length, a faulty
sequence of some length, or the start of a character. -/
inductive Utf8Front where
  | character (length : Nat)
  | faulty (length : Nat)
  | incomplete
deriving Repr, DecidableEq

/-- How the bytes behind a well formed second byte go on. -/
def utf8Tail : Nat → Nat → List UInt8 → Utf8Front
  | 0, length, _ => .character length
  | _ + 1, _, [] => .incomplete
  | more + 1, length, b :: rest =>
    if isContinuation b then utf8Tail more (length + 1) rest else .faulty length

/-- What the bytes at the front are. -/
def utf8Front (b : UInt8) (rest : List UInt8) : Utf8Front :=
  if b < 0x80 then .character 1
  else
    match secondByte? b with
    | none => .faulty 1
    | some (low, high, more) =>
      match rest with
      | [] => .incomplete
      | c :: rest => if low ≤ c && c ≤ high then utf8Tail more 2 rest else .faulty 1

/-- The first fault of some bytes, behind `offset` bytes without one. -/
def utf8Fault? : Nat → Nat → List UInt8 → Option Utf8Fault
  | 0, _, _ => none
  | _ + 1, _, [] => none
  | fuel + 1, offset, b :: rest =>
    match utf8Front b rest with
    | .character n => utf8Fault? fuel (offset + n) (rest.drop (n - 1))
    | .faulty n => some ⟨offset, some n⟩
    | .incomplete => some ⟨offset, none⟩

/-- The text that some bytes stand for. -/
def decode (bytes : ByteArray) : Except Utf8Fault String :=
  match String.fromUTF8? bytes with
  | some s => .ok s
  | none =>
    .error ((utf8Fault? (bytes.size + 1) 0 bytes.data.toList).getD ⟨0, none⟩)

end Cascade.Text
