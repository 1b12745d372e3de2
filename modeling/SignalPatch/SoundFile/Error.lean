import SignalPatch.Files.Content

/-!
# Faults of sound files

Why a sound file cannot be read or written.  A file that is not what it claims
to be is ill-formed; a file that is well-formed may still hold a format that is
not understood.
-/

namespace SignalPatch

/-- What is wrong with an ill-formed file. -/
inductive SoundDefect where
  | noRiffTag
  | noWaveTag
  | noFormat
  | formatTooShort
  | noChannels
  | sampleTooNarrow
  | contradictoryRate
  | brokenBits
  | zeroBits
  | formatLength
  | integerBits
  | extensionOfFloats
  | floatBits
  | extensionLength
  | brokenSample
  | brokenFrame
deriving DecidableEq

def SoundDefect.reason : SoundDefect → String
  | noRiffTag => "no RIFF tag found"
  | noWaveTag => "no WAVE tag found"
  | noFormat => "missing fmt chunk"
  | formatTooShort => "invalid fmt chunk size"
  | noChannels => "file contains zero channels"
  | sampleTooNarrow => "sample bits exceeds size of sample"
  | contradictoryRate => "inconsistent fmt chunk"
  | brokenBits => "bits per sample is not a multiple of 8"
  | zeroBits => "bits per sample is 0"
  | formatLength => "unexpected fmt chunk size"
  | integerBits => "bits per sample is not 8 or 16"
  | extensionOfFloats => "unexpected WAVEFORMATEX size"
  | floatBits => "bits per sample is not 32"
  | extensionLength => "unexpected WAVEFORMATEXTENSIBLE size"
  | brokenSample => "data chunk length is not a multiple of sample size"
  | brokenFrame => "invalid data chunk length"

/-- Why a sound file cannot be read or written. -/
inductive SoundFileError where
  | file (error : FileError)
  /-- The file ends before what it announces. -/
  | truncated
  | illFormed (defect : SoundDefect)
  | tooWide
  | unsupported
  /-- The last frame lacks a sample. -/
  | unfinishedFrame
deriving DecidableEq

def SoundFileError.message : SoundFileError → String
  | file error => error.message
  | truncated => "Failed to read enough bytes."
  | illFormed defect => "Ill-formed WAVE file: " ++ defect.reason
  | tooWide => "The sample has more bits than the destination type."
  | unsupported => "The wave format of the file is not supported."
  | unfinishedFrame =>
      "The number of samples written is not a multiple of the number of channels."

end SignalPatch
