import SignalPatch.Files.ByteOrder
import SignalPatch.Frame
import SignalPatch.SoundFile.Error
import SignalPatch.SoundFile.Layout

/-!
# Reading sound files

A sound file is a RIFF container: a header, then chunks with a name and a
length.  The format chunk says how samples are stored, and the data chunk holds
them.  Integer samples are scaled so that full scale is one.  A single channel
is heard on both sides, and channels after the second are not heard.
-/

namespace SignalPatch

/-- An action that takes bytes from the front of what is left of a file. -/
abbrev SoundReader :=
  StateT (List UInt8) (Except SoundFileError)

namespace SoundReader

def stop {Value : Type} (error : SoundFileError) : SoundReader Value :=
  fun _ => .error error

/-- Stop at a defect of the file if there is one. -/
def refuse (defective : Bool) (defect : SoundDefect) : SoundReader Unit :=
  if defective then stop (.illFormed defect) else pure ()

def bytes (count : Nat) : SoundReader (List UInt8) :=
  fun rest =>
    let taken := rest.take count
    if taken.length = count then .ok (taken, rest.drop count) else .error .truncated

/-- The next number of so many bytes. -/
def word (count : Nat) : SoundReader Nat := do
  return ByteOrder.littleEndian (← bytes count)

def skip (count : Nat) : SoundReader Unit := do
  let _ ← bytes count

end SoundReader

namespace SoundLayout

open SoundReader

/-- The rest of the format of plain integers. -/
def readInteger (length : Nat) (layout : SoundLayout) : SoundReader SoundLayout := do
  refuse (length != 16 && length != 18 && length != 40) .formatLength
  if length != 16 then
    skip 2
    refuse (layout.bits != 8 && layout.bits != 16 && layout.bits != 24) .integerBits
  if length == 40 then
    skip 22
  return { layout with encoding := .integer }

/-- The rest of the format of floating-point numbers. -/
def readFloat (length : Nat) (layout : SoundLayout) : SoundReader SoundLayout := do
  refuse (length != 16 && length != 18) .formatLength
  if length == 18 then
    refuse ((← word 2) != 0) .extensionOfFloats
  refuse (layout.bits != 32) .floatBits
  return { layout with encoding := .float }

/-- The rest of the extensible format, which names its encoding by an identifier. -/
def readExtensible (length : Nat) (layout : SoundLayout) : SoundReader SoundLayout := do
  refuse (length < 40) .formatLength
  refuse ((← word 2) != 22) .extensionLength
  let validBits ← word 2
  skip 4
  let subformat ← bytes 16
  let bits := if validBits = 0 then layout.bits else validBits
  if subformat == identifier 1 then
    return { layout with bits, encoding := .integer }
  else if subformat == identifier 3 then
    return { layout with bits, encoding := .float }
  else
    stop .unsupported

/-- The content of a format chunk of the given length. -/
def read (length : Nat) : SoundReader SoundLayout := do
  refuse (length < 16) .formatTooShort
  let tag ← word 2
  let channels ← word 2
  let rate ← word 4
  let byteRate ← word 4
  let align ← word 2
  let bits ← word 2
  refuse (channels == 0) .noChannels
  let width := align / channels
  refuse (8 * width < bits || 65536 ≤ 8 * width) .sampleTooNarrow
  refuse (byteRate != align * rate) .contradictoryRate
  refuse (bits % 8 != 0) .brokenBits
  refuse (bits == 0) .zeroBits
  let layout : SoundLayout := ⟨channels, width, bits, .integer⟩
  match tag with
  | 1 => readInteger length layout
  | 3 => readFloat length layout
  | 0xFFFE => readExtensible length layout
  | _ => stop .unsupported

def scaled (layout : SoundLayout) (value : Int) : Sample :=
  .ofNumber ((Int32.ofInt value).toFloat32 / Float32.ofNat (1 <<< (layout.bits - 1)))

/-- The next signed integer, in the low bits of so many bytes. -/
def readSigned (width bits : Nat) : SoundReader Int := do
  return Int.bmod (← word width) (1 <<< bits)

def readSample (layout : SoundLayout) : SoundReader Sample :=
  match layout.encoding, layout.width, layout.bits with
  | .float, 4, 32 => do return ⟨(← word 4).toUInt32⟩
  | .integer, 1, 8 => do return layout.scaled ((← word 1) - 128)
  | .integer, 2, 16 => do return layout.scaled (← readSigned 2 16)
  | .integer, 3, 24 => do return layout.scaled (← readSigned 3 24)
  | .integer, 4, 24 => do return layout.scaled (← readSigned 4 24)
  | .integer, 4, 32 => do return layout.scaled (← readSigned 4 32)
  | _, width, _ => stop (if 4 < width then .tooWide else .unsupported)

def readSamples (layout : SoundLayout) : Nat → List Sample → SoundReader (List Sample)
  | 0, before => pure before.reverse
  | count + 1, before => do readSamples layout count ((← layout.readSample) :: before)

def heard : List Sample → Frame
  | [] => .silence
  | [sample] => .mono sample
  | left :: right :: _ => ⟨left, right⟩

def readFrames (layout : SoundLayout) : Nat → Array Frame → SoundReader (Array Frame)
  | 0, before => pure before
  | count + 1, before => do
      readFrames layout count (before.push (heard (← layout.readSamples layout.channels [])))

def readData (layout : SoundLayout) (length : Nat) : SoundReader (Array Frame) := do
  refuse (length % layout.width != 0) .brokenSample
  let samples := length / layout.width
  refuse (samples % layout.channels != 0) .brokenFrame
  readFrames layout (samples / layout.channels) #[]

end SoundLayout

namespace SoundReader

/--
The frames of the first data chunk, stored as the last format chunk before it
says.  A chunk has at least eight bytes, so that the number of bytes of a file
bounds the number of its chunks.
-/
def chunks : Nat → Option SoundLayout → SoundReader (Array Frame)
  | 0, _ => stop .truncated
  | fuel + 1, layout? => do
      let name ← bytes 4
      let length ← word 4
      if name == chunkName "fmt " then
        chunks fuel (some (← SoundLayout.read length))
      else if name == chunkName "fact" then
        skip 4
        chunks fuel layout?
      else if name == chunkName "data" then
        match layout? with
        | some layout => layout.readData length
        | none => stop (.illFormed .noFormat)
      else
        skip length
        chunks fuel layout?

/-- The frames of a file that has at most so many chunks. -/
def file (fuel : Nat) : SoundReader (Array Frame) := do
  refuse ((← bytes 4) != chunkName "RIFF") .noRiffTag
  skip 4
  refuse ((← bytes 4) != chunkName "WAVE") .noWaveTag
  chunks fuel none

end SoundReader

def readSoundFile (content : FileContent) : Except SoundFileError (Array Frame) :=
  match content with
  | .error error => .error (.file error)
  | .ok bytes => ((SoundReader.file bytes.size).run bytes.toList).map (fun result => result.1)

end SignalPatch
