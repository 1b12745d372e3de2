import SignalPatch.Sample.Basic

/-!
# Reading decimal numbers

A decimal number is a significand and a power of ten.  It becomes the nearest
binary number of a format in one rounding, ties going to even, whatever the
size of its exponent.
-/

namespace SignalPatch

/-- The exact number `significand * 10 ^ exponent`. -/
structure Decimal where
  significand : Nat
  exponent : Int
deriving DecidableEq

namespace Decimal

def digitValue (digit : Char) : Nat :=
  digit.toNat - 48

/-- The number written by a run of decimal digits, most significant first. -/
def digitsValue (digits : List Char) : Nat :=
  digits.foldl (fun value digit => 10 * value + digitValue digit) 0

/-- The number written by whole digits, fraction digits and a power of ten. -/
def ofDigits (whole fraction : List Char) (exponent : Int) : Decimal :=
  ⟨digitsValue (whole ++ fraction), exponent - fraction.length⟩

/-- The nearest binary32 number, or infinity past the largest. -/
def toSample (number : Decimal) : Sample :=
  .ofNumber (.ofModel (.ofScientific number.significand number.exponent))

/-- The nearest binary64 number, or infinity past the largest. -/
def toDouble (number : Decimal) : Float :=
  .ofModel (.ofScientific number.significand number.exponent)

end Decimal

end SignalPatch
