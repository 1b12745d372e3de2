/-!
# Samples

A sample is an IEEE binary32 number given by its word.  Every operation rounds
its exact result once.  Undefined numbers (NaN) are of many kinds, told apart by
their words: a copy keeps the word of an undefined sample, and arithmetic hands
it on with the quiet bit set.  Of two undefined operands the first is handed on.
-/

namespace SignalPatch

/-- One value of the signal: an IEEE binary32 number. -/
structure Sample where
  word : UInt32
deriving DecidableEq

namespace Sample

@[inline]
def number (sample : Sample) : Float32 :=
  .ofBits sample.word

@[inline]
def magnitudeWord (sample : Sample) : UInt32 :=
  sample.word &&& 0x7FFFFFFF

@[inline]
def isUndefined (sample : Sample) : Bool :=
  sample.magnitudeWord > 0x7F800000

@[inline]
def isZero (sample : Sample) : Bool :=
  sample.magnitudeWord == 0

/-- Whether a sample has its sign bit set. -/
@[inline]
def isNegative (sample : Sample) : Bool :=
  sample.word &&& 0x80000000 != 0

/-- Whether a sample is undefined and its quiet bit is not set. -/
@[inline]
def isSignalling (sample : Sample) : Bool :=
  sample.isUndefined && sample.word &&& 0x00400000 == 0

/-- A sample with the quiet bit set. -/
@[inline]
def quiet (sample : Sample) : Sample :=
  ⟨sample.word ||| 0x00400000⟩

/-- The sample of an operation on numbers that has no result. -/
def undefined : Sample :=
  ⟨0xFFC00000⟩

def infinity : Sample :=
  ⟨0x7F800000⟩

/-- The undefined sample that a text can write. -/
def nan : Sample :=
  ⟨0x7FC00000⟩

@[inline]
def ofNumber (result : Float32) : Sample :=
  if result.isNaN then undefined else ⟨result.toBits⟩

@[inline]
def lift (operation : Float32 → Float32) (sample : Sample) : Sample :=
  if sample.isUndefined then sample.quiet else ofNumber (operation sample.number)

@[inline]
def lift₂ (operation : Float32 → Float32 → Float32) (first second : Sample) : Sample :=
  if first.isUndefined then first.quiet
  else if second.isUndefined then second.quiet
  else ofNumber (operation first.number second.number)

/-- The sample nearest to a natural number. -/
def ofNat (value : Nat) : Sample :=
  ofNumber (Float32.ofNat value)

/-- The nearest sample to a binary64 number. -/
def ofDouble (value : Float) : Sample :=
  ofNumber value.toFloat32

/-- The nearest number to `mantissa * 2 ^ exponent` with the given sign. -/
def ofDyadic (sign : Float.Model.UnpackedFloat.Sign) (mantissa : Nat) (exponent : Int) :
    Float32 :=
  if mantissa = 0 then
    .ofModel (.pack (.zero sign))
  else
    .ofModel (.pack (.round .binary32 sign mantissa exponent))

instance (value : Nat) : OfNat Sample value :=
  ⟨ofNat value⟩

instance : OfScientific Sample :=
  ⟨fun digits negative exponent => ofNumber (OfScientific.ofScientific digits negative exponent)⟩

instance : Add Sample :=
  ⟨lift₂ (· + ·)⟩

instance : Sub Sample :=
  ⟨lift₂ (· - ·)⟩

instance : Mul Sample :=
  ⟨lift₂ (· * ·)⟩

instance : Div Sample :=
  ⟨lift₂ (· / ·)⟩

/-- Negation turns the sign around, also that of an undefined sample. -/
instance : Neg Sample :=
  ⟨fun sample => ⟨sample.word ^^^ 0x80000000⟩⟩

/-- The order of numbers; an undefined sample is neither below nor above another. -/
instance : LT Sample :=
  ⟨fun first second => first.number < second.number⟩

instance (first second : Sample) : Decidable (first < second) :=
  inferInstanceAs (Decidable (first.number < second.number))

instance : Inhabited Sample :=
  ⟨⟨0⟩⟩

def abs (sample : Sample) : Sample :=
  ⟨sample.magnitudeWord⟩

/-- The larger of two samples, where an undefined one never wins against a number. -/
def peak (first second : Sample) : Sample :=
  if first.isUndefined then second
  else if second.isUndefined then first
  else if first < second then second else first

/-- A sample held within one of zero; an undefined one passes unchanged, and so does any zero. -/
def limit (sample : Sample) : Sample :=
  if sample < -1 then -1 else if 1 < sample then 1 else sample

end Sample

end SignalPatch
