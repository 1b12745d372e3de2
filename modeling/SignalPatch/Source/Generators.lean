import SignalPatch.Frame

/-!
# Generators

What can feed the input ports besides the sound card: frames of a file played
in a loop, uniform noise, a sine tone, and a train of impulses.  Each generator
is a state and a function from it to the next frame and the next state.
-/

namespace SignalPatch

/-- Frames that are played over and over, and the index of the next one. -/
structure FileLoop where
  frames : Array Frame
  index : Nat

namespace FileLoop

/-- A loop of no frames, which is silent. -/
def empty : FileLoop :=
  ⟨#[], 0⟩

def ofFrames (frames : Array Frame) : FileLoop :=
  ⟨frames, 0⟩

def next (player : FileLoop) : Frame × FileLoop :=
  match player.frames[player.index]? with
  | some frame => (frame, ⟨player.frames, (player.index + 1) % player.frames.size⟩)
  | none => (Frame.silence, player)

end FileLoop

/-- States of a random generator, which draws samples from minus one on and below one. -/
class RandomGenerator (Random : Type) where
  ofSeed : UInt64 → Random
  draw : Random → Sample × Random

/-- Independent uniform noise on both channels. -/
structure Noise (Random : Type) where
  random : Random

namespace Noise

variable {Random : Type} [RandomGenerator Random]

def ofSeed (seed : UInt64) : Noise Random :=
  ⟨RandomGenerator.ofSeed seed⟩

/-- The next frame of noise, the left channel drawn first. -/
def next (noise : Noise Random) : Frame × Noise Random :=
  let (left, random) := RandomGenerator.draw noise.random
  let (right, random) := RandomGenerator.draw random
  (⟨left, right⟩, ⟨random⟩)

end Noise

/-- A rotating phase, counted in turns. -/
structure Phasor where
  phase : Float
  increment : Float
  /-- The sample of a phase that is undefined. -/
  lost : Sample

namespace Phasor

/-- The ratio of a circle's circumference to its diameter. -/
def pi : Float :=
  .ofBits 0x400921FB54442D18

/-- A phasor that turns `frequency` times in one second. -/
def ofFrequency (sampleRate : UInt32) (frequency : Sample) : Phasor :=
  ⟨0, frequency.number.toFloat / (max sampleRate 1).toFloat,
    if frequency.isUndefined then frequency.quiet else Sample.undefined⟩

/-- What is left of a number after its integral part, with the sign of the number. -/
def fraction (value : Float) : Float :=
  value - (if value < 0 then value.ceil else value.floor)

def radians (phasor : Phasor) : Float :=
  phasor.phase * 2 * pi

def sample (phasor : Phasor) (wave : Float → Float) : Sample :=
  if phasor.phase.isNaN then phasor.lost else .ofDouble (wave phasor.radians)

def advance (phasor : Phasor) : Phasor :=
  ⟨fraction (phasor.phase + phasor.increment), phasor.increment, phasor.lost⟩

end Phasor

/-- A tone of a given frequency and amplitude. -/
structure Tone where
  phasor : Phasor
  amplitude : Sample

namespace Tone

def ofFrequency (sampleRate : UInt32) (frequency amplitude : Sample) : Tone :=
  ⟨Phasor.ofFrequency sampleRate frequency, amplitude⟩

def advance (tone : Tone) : Tone :=
  ⟨tone.phasor.advance, tone.amplitude⟩

/-- The sine of the phase, at the amplitude of the tone. -/
def sine (tone : Tone) : Sample :=
  tone.phasor.sample Float.sin * tone.amplitude

/-- The cosine of the phase, at the amplitude of the tone. -/
def cosine (tone : Tone) : Sample :=
  tone.phasor.sample Float.cos * tone.amplitude

end Tone

/-- A unit impulse on the first of every `period` samples. -/
structure ImpulseTrain where
  period : Nat
  counter : Nat

namespace ImpulseTrain

/--
The number of samples in an interval of seconds: rounded, at least one, and
held below the limit of 64 bits.  An interval that is no number counts as none.
-/
def periodOf (sampleRate : UInt32) (interval : Sample) : Nat :=
  let samples := sampleRate.toFloat * (Sample.peak interval 0).number.toFloat
  max samples.round.toUInt64.toNat 1

def ofInterval (sampleRate : UInt32) (interval : Sample) : ImpulseTrain :=
  ⟨periodOf sampleRate interval, 0⟩

def next (train : ImpulseTrain) : Frame × ImpulseTrain :=
  (Frame.mono (if train.counter = 0 then 1 else 0),
    ⟨train.period, (train.counter + 1) % train.period⟩)

end ImpulseTrain

end SignalPatch
