import SignalPatch.Sample.Basic

/-!
# Fixed-point numbers

Real numbers with 256 binary places, and the elementary functions on them.  The
last quarter of the places may be off, and rounding drops it, so that a result with
few digits is found exactly.  Large angles and exponents spoil more places than
that, but leave more than a hundred.
-/

namespace SignalPatch

/-- A real number, as a whole number of units of the last binary place. -/
structure FixedPoint where
  units : Int
deriving DecidableEq

namespace FixedPoint

def places : Nat :=
  256

/-- The number of places at the end that do not count in a result. -/
def doubtfulPlaces : Nat :=
  64

def ofNat (value : Nat) : FixedPoint :=
  ⟨value <<< places⟩

instance (value : Nat) : OfNat FixedPoint value :=
  ⟨ofNat value⟩

instance : Neg FixedPoint :=
  ⟨fun value => ⟨-value.units⟩⟩

instance : Add FixedPoint :=
  ⟨fun first second => ⟨first.units + second.units⟩⟩

instance : Sub FixedPoint :=
  ⟨fun first second => ⟨first.units - second.units⟩⟩

/-- A product loses what comes after its last place. -/
instance : Mul FixedPoint :=
  ⟨fun first second => ⟨(first.units * second.units) >>> places⟩⟩

/-- A quotient loses what comes after its last place. -/
instance : Div FixedPoint :=
  ⟨fun dividend divisor => ⟨dividend.units * (ofNat 1).units / divisor.units⟩⟩

def part (value : FixedPoint) (count : Nat) : FixedPoint :=
  ⟨value.units / count⟩

/-- A value that is doubled so many times, or halved if the count is negative. -/
def double (value : FixedPoint) (count : Int) : FixedPoint :=
  ⟨(value.units * Int.ofNat (1 <<< count.toNat)) >>> (-count).toNat⟩

/-- The value of a finite number; others count as zero. -/
def ofNumber (number : Float32) : FixedPoint :=
  match number.toModel.unpack with
  | .finite .positive mantissa exponent _ => double ⟨mantissa⟩ (exponent + places)
  | .finite .negative mantissa exponent _ => -double ⟨mantissa⟩ (exponent + places)
  | _ => 0

/-- The number nearest to a value that is doubled so many times. -/
def round (value : FixedPoint) (doublings : Int) : Float32 :=
  let half := 1 <<< (doubtfulPlaces - 1)
  Sample.ofDyadic (if value.units < 0 then .negative else .positive)
    ((value.units.natAbs + half) >>> doubtfulPlaces)
    (doublings - Int.ofNat (places - doubtfulPlaces))

/-- How often a unit goes into a value, to the nearest whole number. -/
def countOf (unit value : FixedPoint) : Int :=
  (2 * value.units + unit.units) / (2 * unit.units)

/-- The number of terms after which no series adds anything to the places. -/
def termCount : Nat :=
  96

/--
The sum `1 + x / d 0 * (1 + x / d 1 * (1 + …))` from an index on, to so many terms;
`d` tells by what each term is divided.
-/
def nestedSum (divisor : Nat → Nat) (x : FixedPoint) : Nat → Nat → FixedPoint
  | _, 0 => 1
  | index, terms + 1 =>
      1 + (x * nestedSum divisor x (index + 1) terms).part (divisor index)

/-- The sum `1 / 1 + x / 3 + x * x / 5 + …` from an index on, to so many terms. -/
def oddSum (x : FixedPoint) : Nat → Nat → FixedPoint
  | _, 0 => 0
  | index, terms + 1 => part 1 (2 * index + 1) + x * oddSum x (index + 1) terms

def arctangent (slope : FixedPoint) : FixedPoint :=
  slope * oddSum (-(slope * slope)) 0 termCount

/-- The inverse of the hyperbolic tangent for values well below one. -/
def hyperbolicArctangent (value : FixedPoint) : FixedPoint :=
  value * oddSum (value * value) 0 termCount

def quarterTurn : FixedPoint :=
  8 * arctangent (part 1 5) - 2 * arctangent (part 1 239)

/-- The natural logarithm of two. -/
def logarithmOfTwo : FixedPoint :=
  2 * hyperbolicArctangent (part 1 3)

/-- The natural logarithm of a positive value: that of a number from one to two, and doublings. -/
def logarithm (value : FixedPoint) : FixedPoint :=
  let doublings := Int.ofNat value.units.toNat.log2 - Int.ofNat places
  let scaled := value.double (-doublings)
  2 * hyperbolicArctangent ((scaled - 1) / (scaled + 1)) + ⟨doublings * logarithmOfTwo.units⟩

/-- The exponential of a value, as a number near one and a count of doublings. -/
def exponential (value : FixedPoint) : FixedPoint × Int :=
  let doublings := countOf logarithmOfTwo value
  let rest := value - ⟨doublings * logarithmOfTwo.units⟩
  (nestedSum (fun index => index + 1) rest 0 termCount, doublings)

def smallSine (angle : FixedPoint) : FixedPoint :=
  angle * nestedSum (fun index => (2 * index + 2) * (2 * index + 3)) (-(angle * angle)) 0 termCount

def smallCosine (angle : FixedPoint) : FixedPoint :=
  nestedSum (fun index => (2 * index + 1) * (2 * index + 2)) (-(angle * angle)) 0 termCount

def sineAfter (quarters : Int) (angle : FixedPoint) : FixedPoint :=
  let count := countOf quarterTurn angle
  let rest := angle - ⟨count * quarterTurn.units⟩
  match (count + quarters) % 4 with
  | 0 => smallSine rest
  | 1 => smallCosine rest
  | 2 => -smallSine rest
  | _ => -smallCosine rest

def sine (angle : FixedPoint) : FixedPoint :=
  sineAfter 0 angle

def cosine (angle : FixedPoint) : FixedPoint :=
  sineAfter 1 angle

def tangent (angle : FixedPoint) : FixedPoint :=
  sine angle / cosine angle

def hyperbolicTangent (value : FixedPoint) : FixedPoint :=
  let (significand, doublings) := exponential (2 * value)
  let power := significand.double doublings
  (power - 1) / (power + 1)

/-- A power of a positive value, as a number near one and a count of doublings. -/
def power (base exponent : FixedPoint) : FixedPoint × Int :=
  exponential (exponent * logarithm base)

end FixedPoint

end SignalPatch
