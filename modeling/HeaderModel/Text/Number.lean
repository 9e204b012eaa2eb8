/-
Whole numbers.

A decimal reading takes an optional sign and ASCII digits, with nothing before, between or after them,
and holds only when the number fits the stated range. Other bases are read without a sign and without
a range.
-/

namespace HeaderModel.Text

/-- the value of a digit of base ten -/
def digitValue (c : Char) : Nat := c.toNat - '0'.toNat

/-- the number that a non-empty row of ASCII digits spells -/
def digits? (cs : List Char) : Option Nat :=
  if cs.isEmpty || !cs.all Char.isDigit then none
  else some (cs.foldl (fun n c => 10 * n + digitValue c) 0)

/-- the value of a hexadecimal digit -/
def hexValue? (c : Char) : Option Nat :=
  if c.isDigit then some (c.toNat - '0'.toNat)
  else if 'a' ≤ c && c ≤ 'f' then some (c.toNat - 'a'.toNat + 10)
  else if 'A' ≤ c && c ≤ 'F' then some (c.toNat - 'A'.toNat + 10)
  else none

/-- a non-empty row of digits in the given base, at most sixteen -/
def radixNumber? (base : Nat) (cs : List Char) : Option Nat :=
  if cs.isEmpty then none
  else cs.foldlM (fun n c => (hexValue? c).bind fun v => if v < base then some (base * n + v) else none) 0

/-- a number in a fixed count of hexadecimal digits, in lower case -/
def hexDigits : Nat → Nat → List Char
  | 0, _ => []
  | width + 1, n => hexDigits width (n / 16) ++ [Nat.digitChar (n % 16)]

/-- an unsigned number below `bound`, with an optional plus sign -/
def natBelow? (bound : Nat) (cs : List Char) : Option Nat :=
  (digits? (match cs with | '+' :: rest => rest | _ => cs)).filter (· < bound)

/-- a signed number in `[-bound, bound)`, with an optional sign -/
def intWithin? (bound : Nat) (cs : List Char) : Option Int :=
  match cs with
  | '-' :: rest => ((digits? rest).filter (· ≤ bound)).map fun n => -(n : Int)
  | _ => (natBelow? bound cs).map Int.ofNat

/-- a number that fits 32 bits -/
def word32? (s : String) : Option Nat := natBelow? UInt32.size s.toList

/-- a number that fits 64 bits -/
def word64? (s : String) : Option Nat := natBelow? UInt64.size s.toList

end HeaderModel.Text
