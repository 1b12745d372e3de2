import SignalPatch.Source.ChaCha

/-!
# Sources

The six sources of input frames.  One is selected; the others stand still and
go on where they were when they are selected again.
-/

namespace SignalPatch

/-- What can feed the input ports. -/
inductive SourceKind where
  /-- The frames that the sound card delivers. -/
  | soundcard
  /-- The frames of a file in a loop. -/
  | file
  | noise
  | sine
  /-- A sine on the left and a cosine on the right. -/
  | quadSine
  | impulse
deriving DecidableEq

namespace SourceKind

/-- All sources, in the order of their numbers. -/
def all : List SourceKind :=
  [soundcard, file, noise, sine, quadSine, impulse]

def name : SourceKind → String
  | soundcard => "soundcard"
  | file => "file"
  | noise => "noise"
  | sine => "sine"
  | quadSine => "quad_sine"
  | impulse => "impulse"

def ofName? (name : String) : Option SourceKind :=
  all.find? (fun kind => kind.name == name)

def unknownMessage (name : String) : String :=
  "unknown source '" ++ name ++ "'"

end SourceKind

/-- The tuning of the generators. -/
structure SourceSettings where
  sineFrequency : Sample
  sineAmplitude : Sample
  impulseInterval : Sample
  noiseSeed : UInt64

namespace SourceSettings

/-- A tone of 440 Hz at half scale, and an impulse every second. -/
def standard : SourceSettings :=
  ⟨440, 0.5, 1, 42⟩

end SourceSettings

/-- The state of every generator and the selected source. -/
structure Sources (Random : Type := RandomStream) where
  selected : SourceKind
  file : FileLoop
  noise : Noise Random
  sine : Tone
  quadSine : Tone
  impulse : ImpulseTrain

namespace Sources

variable {Random : Type}

/-- All generators at their start, with the sound card selected. -/
def ofSettings [RandomGenerator Random] (sampleRate : UInt32) (settings : SourceSettings) :
    Sources Random where
  selected := .soundcard
  file := .empty
  noise := .ofSeed settings.noiseSeed
  sine := .ofFrequency sampleRate settings.sineFrequency settings.sineAmplitude
  quadSine := .ofFrequency sampleRate settings.sineFrequency settings.sineAmplitude
  impulse := .ofInterval sampleRate settings.impulseInterval

def select (sources : Sources Random) (kind : SourceKind) : Sources Random :=
  { sources with selected := kind }

def setFileFrames (sources : Sources Random) (frames : Array Frame) : Sources Random :=
  { sources with file := .ofFrames frames }

/-- The next frame of the selected source, where the sound card delivers `live`. -/
def next [RandomGenerator Random] (sources : Sources Random) (live : Frame) :
    Frame × Sources Random :=
  match sources.selected with
  | .soundcard => (live, sources)
  | .file =>
      let (frame, file) := sources.file.next
      (frame, { sources with file })
  | .noise =>
      let (frame, noise) := sources.noise.next
      (frame, { sources with noise })
  | .sine =>
      (Frame.mono sources.sine.sine, { sources with sine := sources.sine.advance })
  | .quadSine =>
      (⟨sources.quadSine.sine, sources.quadSine.cosine⟩,
        { sources with quadSine := sources.quadSine.advance })
  | .impulse =>
      let (frame, impulse) := sources.impulse.next
      (frame, { sources with impulse })

end Sources

end SignalPatch
