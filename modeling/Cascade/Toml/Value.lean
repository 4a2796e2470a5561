/-!
# Values of a TOML document

A document is a table.  Tables keep their keys in the order in which they
were written.  Dates and times are checked by the reader and carry no value
here.

`Value.isRepresentable` says that every number in a value has a machine
representation: integers of 128 bits and floating point numbers of 64.
-/

namespace Cascade.Toml

/-- A number with a fractional part or an exponent. -/
inductive FloatLiteral where
  /-- `mantissa` times ten to the power `exponent`, the sign left out. -/
  | decimal (mantissa : Nat) (exponent : Int)
  | infinite
  | notANumber
deriving Repr, DecidableEq

/-- The least decimal value that rounds to infinity in 64 bits. -/
def floatLimit : Nat := (1 <<< 1024) - (1 <<< 970)

/-- Whether a number stays finite in 64 bits, or was written as infinite.
Only numbers of 309 digits before the point need a closer look. -/
def FloatLiteral.fits : FloatLiteral → Bool
  | .infinite | .notANumber => true
  | .decimal 0 _ => true
  | .decimal mantissa exponent =>
    let size := (Nat.toDigits 10 mantissa).length + exponent
    if size < 309 then true
    else if 309 < size then false
    else
      match exponent with
      | .ofNat e => decide (mantissa * Nat.pow 10 e < floatLimit)
      | .negSucc e => decide (mantissa < floatLimit * Nat.pow 10 (e + 1))

/-- A value of a document. -/
inductive Value where
  | string (text : String)
  | integer (value : Int)
  | float (value : FloatLiteral)
  | boolean (value : Bool)
  | datetime
  | array (elements : List Value)
  | table (entries : List (String × Value))
deriving Repr, Inhabited

namespace Value

mutual

/-- Whether every number in a value has a machine representation. -/
def isRepresentable : Value → Bool
  | .integer i => decide (-(2 ^ 127 : Int) ≤ i) && decide (i < 2 ^ 128)
  | .float f => f.fits
  | .array elements => areRepresentable elements
  | .table entries => areEntriesRepresentable entries
  | _ => true

/-- The same for the elements of an array. -/
def areRepresentable : List Value → Bool
  | [] => true
  | v :: rest => v.isRepresentable && areRepresentable rest

/-- The same for the entries of a table. -/
def areEntriesRepresentable : List (String × Value) → Bool
  | [] => true
  | (_, v) :: rest => v.isRepresentable && areEntriesRepresentable rest

end

end Value

end Cascade.Toml
