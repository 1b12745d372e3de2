import SignalPatch.Decimal.Reading

/-!
# Shortest decimal text

The text of a sample is the shortest decimal number that reads back as the same
sample, and of those the nearest to it.  It is written positionally: no exponent,
no point on a whole number.
-/

namespace SignalPatch

namespace Decimal

/--
The numbers that read as one sample, in units of `2 ^ exponent`: everything
between `low` and `high`, with the ends included if `closed`.
-/
structure Interval where
  low : Nat
  value : Nat
  high : Nat
  exponent : Int
  closed : Bool

namespace Interval

/--
The interval of a finite sample.  Below a power of two the next sample is
half as far away as above it.
-/
def ofDyadic (mantissa : Nat) (exponent : Int) : Interval where
  low := 4 * mantissa - (if mantissa = 0x800000 then 1 else 2)
  value := 4 * mantissa
  high := 4 * mantissa + 2
  exponent := exponent - 2
  closed := mantissa % 2 == 0

/-- A count of units as a numerator over the denominator of the grid `10 ^ place`. -/
def numerator (interval : Interval) (place : Int) (units : Nat) : Nat :=
  (units <<< interval.exponent.toNat) * Nat.pow 10 (-place).toNat

/-- The denominator under which the points of the grid `10 ^ place` are whole multiples. -/
def denominator (interval : Interval) (place : Int) : Nat :=
  (1 <<< (-interval.exponent).toNat) * Nat.pow 10 place.toNat

/-- Whether a numerator lies in the interval of two numerators. -/
def within (closed : Bool) (low point high : Nat) : Bool :=
  if closed then low ≤ point && point ≤ high else low < point && point < high

/--
The multiple of `10 ^ place` that lies in the interval and is nearest to the
value, if there is one.  Of two at equal distance the larger is taken.
-/
def multipleAt? (interval : Interval) (place : Int) : Option Nat :=
  let unit := interval.denominator place
  let low := interval.numerator place interval.low
  let value := interval.numerator place interval.value
  let high := interval.numerator place interval.high
  let below := value / unit
  let belowFits := within interval.closed low (below * unit) high
  let aboveFits := within interval.closed low ((below + 1) * unit) high
  if aboveFits && (!belowFits || unit ≤ 2 * (value % unit)) then some (below + 1)
  else if belowFits then some below
  else none

/-- The first place, going down from `place`, whose grid meets the interval. -/
def search (interval : Interval) : Nat → Int → Decimal
  | 0, place => ⟨0, place⟩
  | places + 1, place =>
      match interval.multipleAt? place with
      | some multiple => ⟨multiple, place⟩
      | none => search interval places (place - 1)

/-- A place above every grid that can meet the interval. -/
def topPlace (interval : Interval) : Int :=
  (interval.high.log2 + interval.exponent) * 1233 / 4096 + 2

/-- The decimal number of the interval with the fewest digits. -/
def shortest (interval : Interval) : Decimal :=
  interval.search 16 interval.topPlace

end Interval

def text (number : Decimal) : String :=
  let digits := Nat.repr number.significand
  if 0 ≤ number.exponent then
    digits ++ "".pushn '0' number.exponent.toNat
  else
    let places := (-number.exponent).toNat
    if digits.length ≤ places then
      "0." ++ "".pushn '0' (places - digits.length) ++ digits
    else
      let point := digits.length - places
      (digits.take point).toString ++ "." ++ (digits.drop point).toString

end Decimal

def Sample.signText : Float.Model.UnpackedFloat.Sign → String
  | .positive => ""
  | .negative => "-"

def Sample.text (value : Sample) : String :=
  match value.number.toModel.unpack with
  | .notANumber => "NaN"
  | .infinity sign => signText sign ++ "inf"
  | .zero sign => signText sign ++ "0"
  | .finite sign mantissa exponent _ =>
      signText sign ++ (Decimal.Interval.ofDyadic mantissa exponent).shortest.text

end SignalPatch
