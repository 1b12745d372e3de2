import SignalPatch.Files.ByteOrder
import SignalPatch.Sample.Basic
import SignalPatch.SoundFile.Error
import SignalPatch.SoundFile.Layout

/-!
# Writing sound files

Stereo samples are written as binary32 numbers behind an extensible header.
The lengths in the header are those of the samples that follow, also when the
last frame is unfinished.
-/

namespace SignalPatch

namespace SoundFile

/-- The low bytes of a header field. -/
def field (count value : Nat) : List UInt8 :=
  ByteOrder.littleEndianBytes count value

/-- The bytes of a second, as far as 32 bits hold them. -/
def byteRate (sampleRate : UInt32) : UInt32 :=
  8 * sampleRate

/-- The bytes of a frame: those of a second over the frames of a second, which must not be none. -/
def blockAlign? (sampleRate : UInt32) : Option UInt32 :=
  if sampleRate = 0 then none else some (byteRate sampleRate / sampleRate)

def formatChunk (sampleRate blockAlign : UInt32) : List UInt8 :=
  chunkName "fmt " ++ field 4 40 ++ field 2 0xFFFE ++ field 2 2 ++
    field 4 sampleRate.toNat ++ field 4 (byteRate sampleRate).toNat ++
    field 2 blockAlign.toNat ++ field 2 32 ++
    field 2 22 ++ field 2 32 ++ field 4 3 ++ SoundLayout.identifier 3

/-- A file of interleaved samples; there is none at a rate of zero. -/
def ofSamples? (sampleRate : UInt32) (samples : Array Sample) : Option (List UInt8) := do
  let blockAlign ← blockAlign? sampleRate
  let length := 4 * samples.size
  return chunkName "RIFF" ++ field 4 (60 + length) ++ chunkName "WAVE" ++
    formatChunk sampleRate blockAlign ++
    chunkName "data" ++ field 4 length ++
    samples.toList.flatMap (fun sample => field 4 sample.word.toNat)

/-- What is left of a file that cannot be made: the lengths of no samples, in an empty header. -/
def unfinished : List UInt8 :=
  field 4 0 ++ field 4 60 ++ List.replicate 60 0

/-- Whether writing samples ends with a whole frame. -/
def written (samples : Array Sample) : Except SoundFileError Unit :=
  if samples.size % 2 = 0 then .ok () else .error .unfinishedFrame

end SoundFile

end SignalPatch
