/-!
# The layout of sound files

What the chunks of a sound file are called, and how its samples are stored.
-/

namespace SignalPatch

/-- The bytes of a name of four letters. -/
def chunkName (name : String) : List UInt8 :=
  name.toList.map (fun letter => letter.toNat.toUInt8)

/-- How one sample is encoded. -/
inductive SoundEncoding where
  | integer
  | float
deriving DecidableEq

/-- How the samples of a file are stored. -/
structure SoundLayout where
  channels : Nat
  width : Nat
  /-- Bits of a sample that count. -/
  bits : Nat
  encoding : SoundEncoding
deriving DecidableEq

namespace SoundLayout

/-- The identifier of an encoding, whose number is its first byte. -/
def identifier (number : UInt8) : List UInt8 :=
  number :: [0, 0, 0, 0, 0, 0x10, 0, 0x80, 0, 0, 0xAA, 0, 0x38, 0x9B, 0x71]

end SoundLayout

end SignalPatch
