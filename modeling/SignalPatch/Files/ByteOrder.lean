/-!
# Byte order

Numbers as sequences of bytes.  The first byte is either the least significant
one or the most significant one.
-/

namespace SignalPatch

namespace ByteOrder

/-- The number with the given bytes, least significant first. -/
def littleEndian (bytes : List UInt8) : Nat :=
  bytes.foldr (fun byte value => byte.toNat + 256 * value) 0

/-- The number with the given bytes, most significant first. -/
def bigEndian (bytes : List UInt8) : Nat :=
  bytes.foldl (fun value byte => 256 * value + byte.toNat) 0

/-- The lowest bytes of a number, least significant first. -/
def littleEndianBytes : Nat → Nat → List UInt8
  | 0, _ => []
  | count + 1, value => value.toUInt8 :: littleEndianBytes count (value / 256)

end ByteOrder

end SignalPatch
