/-!
# Counts in words

A count is written with decimal digits, possibly behind a plus sign, and
has at most 64 bits.
-/

namespace Cascade.Text

/-- The number that decimal digits stand for. -/
def decimal (digits : List Char) : Nat :=
  digits.foldl (fun n c => 10 * n + (c.toNat - '0'.toNat)) 0

/-- The first number that is too large for a count. -/
def countLimit : Nat := 0x10000000000000000

/-- The count that a text stands for. -/
def count? (s : String) : Option Nat :=
  let digits := match s.toList with
    | '+' :: rest => rest
    | cs => cs
  if digits.isEmpty || !digits.all Char.isDigit then none
  else if decimal digits < countLimit then some (decimal digits)
  else none

end Cascade.Text
