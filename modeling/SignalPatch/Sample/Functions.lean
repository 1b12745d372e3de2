import SignalPatch.Sample.FixedPoint

/-!
# Functions of samples

The functions that patches can call.  Remainders are exact, and every other
result is the sample nearest to the true one.  A transcendental function is first
estimated in binary64; an estimate between two samples leaves it to fixed point.
-/

namespace SignalPatch

namespace Sample

/-- The integral part, rounding toward zero and keeping the sign of a zero. -/
def truncate (value : Sample) : Sample :=
  lift (fun number => if number < 0 then number.ceil else number.floor) value

/-- What is left of a sample after its integral part. -/
def fractional (value : Sample) : Sample :=
  value - truncate value

def squareRoot (value : Sample) : Sample :=
  lift Float32.sqrt value

/-- The magnitude of the remainder of two dyadic magnitudes, over the smaller exponent. -/
def dyadicRemainder (mantissa : Nat) (exponent : Int) (divisor : Nat) (divisorExponent : Int) :
    Nat × Int :=
  let common := min exponent divisorExponent
  let scaled := mantissa <<< (exponent - common).toNat
  let scaledDivisor := divisor <<< (divisorExponent - common).toNat
  (scaled % scaledDivisor, common)

/-- The remainder of a truncating division of numbers. -/
def numberRemainder (dividend divisor : Float32) : Float32 :=
  match dividend.toModel.unpack, divisor.toModel.unpack with
  | .finite sign mantissa exponent _, .finite _ divisorMantissa divisorExponent _ =>
      let rest := dyadicRemainder mantissa exponent divisorMantissa divisorExponent
      ofDyadic sign rest.1 rest.2
  | .finite .., .infinity _ => dividend
  | .zero _, .finite .. => dividend
  | .zero _, .infinity _ => dividend
  | _, _ => 0 / 0

/--
The remainder of a truncating division.  It is exact, has the sign of the
dividend, and is undefined for an infinite dividend or a zero divisor.
-/
def remainder (dividend divisor : Sample) : Sample :=
  lift₂ numberRemainder dividend divisor

/-- The multiple of `step` nearest to a sample; a zero step leaves it alone. -/
def quantize (value step : Sample) : Sample :=
  if step.isZero then value else lift Float32.round (value / step) * step

def turn : Sample :=
  ⟨0x40C90FDB⟩

/--
Whether an estimate settles the result: all that is within its 2^48th part rounds
to the same number.  A binary64 function is closer than that to its true value.
-/
def isSettled (estimate : Float) : Bool :=
  let doubt := estimate.abs.scaleB (-48)
  !estimate.isFinite || (estimate - doubt).toFloat32 == (estimate + doubt).toFloat32

/-- A function from its binary64 estimate, or else from its value in fixed point. -/
@[inline]
def roundedOnce (estimate : Float → Float) (precise : FixedPoint → FixedPoint) (value : Sample) :
    Sample :=
  lift (fun number =>
    let near := estimate number.toFloat
    if isSettled near then near.toFloat32 else (precise (.ofNumber number)).round 0) value

def sine (angle : Sample) : Sample :=
  roundedOnce Float.sin FixedPoint.sine angle

def cosine (angle : Sample) : Sample :=
  roundedOnce Float.cos FixedPoint.cosine angle

def sineOfTurns (angle : Sample) : Sample :=
  sine (turn * angle)

def cosineOfTurns (angle : Sample) : Sample :=
  cosine (turn * angle)

def tangent (angle : Sample) : Sample :=
  roundedOnce Float.tan FixedPoint.tangent angle

def hyperbolicTangent (value : Sample) : Sample :=
  roundedOnce Float.tanh FixedPoint.hyperbolicTangent value

def isOdd (value : Sample) : Bool :=
  match value.number.toModel.unpack with
  | .finite _ mantissa exponent _ =>
      let whole := mantissa >>> (-exponent).toNat
      exponent ≤ 0 && whole % 2 == 1 && whole <<< (-exponent).toNat == mantissa
  | _ => false

/-- Whether a sample is a number other than zero and the infinities. -/
def isOrdinary (value : Sample) : Bool :=
  !value.isZero && value.magnitudeWord < 0x7F800000

/--
A power of which the base or the exponent is undefined.  An exponent of zero and
a base of one give one, whatever the other is, unless it is signalling.
-/
def undefinedPower (base exponent : Sample) : Sample :=
  if exponent.isZero && !base.isSignalling then 1
  else if base = 1 && !exponent.isSignalling then 1
  else if exponent.isOrdinary && base.isNegative && exponent.isOdd then -base.quiet
  else base + exponent

/-- A power of a number other than zero, worked out in fixed point. -/
def precisePower (base exponent : Sample) : Float32 :=
  let (significand, doublings) :=
    (FixedPoint.ofNumber base.abs.number).power (.ofNumber exponent.number)
  (if base.isNegative && exponent.isOdd then -significand else significand).round doublings

def power (base exponent : Sample) : Sample :=
  if base.isUndefined || exponent.isUndefined then undefinedPower base exponent
  else
    let near := base.number.toFloat.pow exponent.number.toFloat
    ofNumber (if isSettled near then near.toFloat32 else precisePower base exponent)

end Sample

end SignalPatch
