import Mathlib.Logic.Function.Basic
import SignalPatch.Source.Selection

/-!
# Every source goes by its own turns

A source has a turn whenever a frame is taken while it is selected.  Where a source
stands is a function of the turns it has had, and of nothing that happened to the others:
a file plays its frames round and round, noise draws two samples a turn from its generator,
the tones rotate, and impulses come on every turn that their period divides.
-/

namespace SignalPatch

namespace RandomGenerator

variable {Random : Type} [RandomGenerator Random]

/-- The samples that a generator draws one after the other, by their numbers. -/
def drawAt (random : Random) : Nat → Sample
  | 0 => (draw random).1
  | number + 1 => drawAt (draw random).2 number

/-- A generator behind so many draws. -/
def behind (random : Random) : Nat → Random
  | 0 => random
  | count + 1 => behind (draw random).2 count

theorem draw_behind (random : Random) (count : Nat) :
    draw (behind random count) = (drawAt random count, behind random (count + 1)) := by
  induction count generalizing random with
  | zero => rfl
  | succ count ih => exact ih (draw random).2

end RandomGenerator

namespace FileLoop

/-- A loop of frames that has had so many turns. -/
def standingAt (frames : Array Frame) (turn : Nat) : FileLoop :=
  ⟨frames, if frames.size = 0 then 0 else turn % frames.size⟩

/-- The frame of a turn, which is silent if there are no frames. -/
def frameAt (frames : Array Frame) (turn : Nat) : Frame :=
  if frames.size = 0 then .silence else frames.getD (turn % frames.size) .silence

theorem standingAt_zero (frames : Array Frame) : standingAt frames 0 = ofFrames frames := by
  simp [standingAt, ofFrames]

theorem next_standingAt (frames : Array Frame) (turn : Nat) :
    (standingAt frames turn).next = (frameAt frames turn, standingAt frames (turn + 1)) := by
  by_cases none : frames.size = 0
  · simp [standingAt, frameAt, next, none]
  · have inside : turn % frames.size < frames.size := Nat.mod_lt _ (Nat.pos_of_ne_zero none)
    simp [standingAt, frameAt, next, none, inside]

theorem index_standingAt_lt (frames : Array Frame) (turn : Nat) :
    (standingAt frames turn).index < max frames.size 1 := by
  simp only [standingAt]
  split
  · omega
  · have inside : turn % frames.size < frames.size := Nat.mod_lt _ (by omega)
    omega

end FileLoop

namespace Noise

variable {Random : Type} [RandomGenerator Random]

/-- The noise of a generator that has had so many turns. -/
def standingAt (random : Random) (turn : Nat) : Noise Random :=
  ⟨RandomGenerator.behind random (2 * turn)⟩

def frameAt (random : Random) (turn : Nat) : Frame :=
  ⟨RandomGenerator.drawAt random (2 * turn), RandomGenerator.drawAt random (2 * turn + 1)⟩

theorem next_standingAt (random : Random) (turn : Nat) :
    (standingAt random turn).next = (frameAt random turn, standingAt random (turn + 1)) := by
  simp only [standingAt, next, RandomGenerator.draw_behind]
  rfl

end Noise

namespace ImpulseTrain

/-- A train of a period that has had so many turns. -/
def standingAt (period turn : Nat) : ImpulseTrain :=
  ⟨period, turn % period⟩

def frameAt (period turn : Nat) : Frame :=
  Frame.mono (if period ∣ turn then 1 else 0)

theorem next_standingAt (period turn : Nat) :
    (standingAt period turn).next = (frameAt period turn, standingAt period (turn + 1)) := by
  refine Prod.ext ?_ (congrArg (ImpulseTrain.mk period) (Nat.mod_add_mod _ _ _))
  change Frame.mono (if turn % period = 0 then 1 else 0) = Frame.mono _
  by_cases due : period ∣ turn
  · rw [if_pos due, if_pos (Nat.mod_eq_zero_of_dvd due)]
  · rw [if_neg due, if_neg (fun zero => due (Nat.dvd_of_mod_eq_zero zero))]

end ImpulseTrain

namespace SourceSettings

variable (settings : SourceSettings) (sampleRate : UInt32)

/--
The number of samples between two impulses: the interval in samples, rounded, held within
64 bits and at least one.  An interval that is negative or no number counts as none.
-/
def impulsePeriod : Nat :=
  let interval :=
    if settings.impulseInterval.isUndefined then 0
    else if settings.impulseInterval < 0 then 0 else settings.impulseInterval
  max (sampleRate.toFloat * interval.number.toFloat).round.toUInt64.toNat 1

theorem periodOf_eq_impulsePeriod :
    ImpulseTrain.periodOf sampleRate settings.impulseInterval =
      settings.impulsePeriod sampleRate := by
  have zeroDefined : (0 : Sample).isUndefined = false := by decide
  simp only [ImpulseTrain.periodOf, impulsePeriod, Sample.peak, zeroDefined, Bool.false_eq_true,
    ↓reduceIte]

theorem impulsePeriod_pos : 0 < settings.impulsePeriod sampleRate :=
  Nat.lt_of_lt_of_le Nat.one_pos (Nat.le_max_right _ _)

theorem impulsePeriod_lt : settings.impulsePeriod sampleRate < UInt64.size :=
  Nat.max_lt.mpr ⟨UInt64.toNat_lt_size _, by decide⟩

/-- How far a tone turns in one step. -/
def toneStep : Float :=
  settings.sineFrequency.number.toFloat / (max sampleRate 1).toFloat

/-- The phase of a tone after so many steps, of which whole turns are dropped. -/
def phaseAt : Nat → Float
  | 0 => 0
  | turn + 1 =>
      let turned := phaseAt turn + settings.toneStep sampleRate
      turned - (if turned < 0 then turned.ceil else turned.floor)

/-- What is heard of a phase that is no number, as it may be if the frequency is not finite. -/
def lostTone : Sample :=
  if settings.sineFrequency.isUndefined then settings.sineFrequency.quiet else Sample.undefined

/-- A wave after so many steps of its phase, where the phase is taken to radians. -/
def waveAt (wave : Float → Float) (turn : Nat) : Sample :=
  let phase := settings.phaseAt sampleRate turn
  let heard := if phase.isNaN then settings.lostTone
    else .ofDouble (wave (phase * 2 * .ofBits 0x400921FB54442D18))
  heard * settings.sineAmplitude

/-- A tone after so many steps. -/
def toneAt (turn : Nat) : Tone :=
  ⟨⟨settings.phaseAt sampleRate turn, settings.toneStep sampleRate, settings.lostTone⟩,
    settings.sineAmplitude⟩

theorem toneAt_zero :
    settings.toneAt sampleRate 0 =
      .ofFrequency sampleRate settings.sineFrequency settings.sineAmplitude :=
  rfl

theorem advance_toneAt (turn : Nat) :
    (settings.toneAt sampleRate turn).advance = settings.toneAt sampleRate (turn + 1) :=
  rfl

theorem sine_toneAt (turn : Nat) :
    (settings.toneAt sampleRate turn).sine = settings.waveAt sampleRate Float.sin turn :=
  rfl

theorem cosine_toneAt (turn : Nat) :
    (settings.toneAt sampleRate turn).cosine = settings.waveAt sampleRate Float.cos turn :=
  rfl

end SourceSettings

/-- Which source is selected, which frames the file has, and the turns that each source has had. -/
structure Turns where
  selected : SourceKind
  frames : Array Frame
  /-- Of the file, the turns since its frames were put in. -/
  taken : SourceKind → Nat

namespace Sources

/-- What is done with the sources. -/
inductive Action where
  | select (kind : SourceKind)
  | setFileFrames (frames : Array Frame)
  /-- Take a frame, where the sound card delivers `live`. -/
  | next (live : Frame)

variable {Random : Type} [RandomGenerator Random]

def act (sources : Sources Random) : Action → Sources Random
  | .select kind => sources.select kind
  | .setFileFrames frames => sources.setFileFrames frames
  | .next live => (sources.next live).2

def actAll (sources : Sources Random) (actions : List Action) : Sources Random :=
  actions.foldl act sources

end Sources

namespace Turns

def start : Turns :=
  ⟨.soundcard, #[], fun _ => 0⟩

/-- Whoever is selected has a turn when a frame is taken; new frames of the file count anew. -/
def count (turns : Turns) : Sources.Action → Turns
  | .select kind => { turns with selected := kind }
  | .setFileFrames frames =>
      { turns with frames, taken := Function.update turns.taken .file 0 }
  | .next _ =>
      { turns with
        taken := Function.update turns.taken turns.selected (turns.taken turns.selected + 1) }

def countAll (turns : Turns) (actions : List Sources.Action) : Turns :=
  actions.foldl count turns

section Standing

variable {Random : Type} [RandomGenerator Random]
variable (sampleRate : UInt32) (settings : SourceSettings) (random : Random) (turns : Turns)

/-- Where the sources stand when they have had these turns. -/
def sources : Sources Random where
  selected := turns.selected
  file := .standingAt turns.frames (turns.taken .file)
  noise := .standingAt random (turns.taken .noise)
  sine := settings.toneAt sampleRate (turns.taken .sine)
  quadSine := settings.toneAt sampleRate (turns.taken .quadSine)
  impulse := .standingAt (settings.impulsePeriod sampleRate) (turns.taken .impulse)

/-- The frame that comes next, which only the turns of the selected source decide. -/
def frame (live : Frame) : Frame :=
  let turn := turns.taken turns.selected
  match turns.selected with
  | .soundcard => live
  | .file => FileLoop.frameAt turns.frames turn
  | .noise => Noise.frameAt random turn
  | .sine => Frame.mono (settings.waveAt sampleRate Float.sin turn)
  | .quadSine =>
      ⟨settings.waveAt sampleRate Float.sin turn, settings.waveAt sampleRate Float.cos turn⟩
  | .impulse => ImpulseTrain.frameAt (settings.impulsePeriod sampleRate) turn

theorem sources_start :
    start.sources sampleRate settings (RandomGenerator.ofSeed settings.noiseSeed : Random) =
      Sources.ofSettings sampleRate settings := by
  simp only [sources, start, FileLoop.standingAt_zero, ImpulseTrain.standingAt, Nat.zero_mod,
    SourceSettings.toneAt_zero, ← SourceSettings.periodOf_eq_impulsePeriod]
  rfl

theorem next_sources (live : Frame) :
    (turns.sources sampleRate settings random).next live =
      (turns.frame sampleRate settings random live,
        (turns.count (.next live)).sources sampleRate settings random) := by
  obtain ⟨selected, frames, taken⟩ := turns
  cases selected with
  | soundcard => simp [Sources.next, sources, frame, count]
  | file => simp [Sources.next, sources, frame, count, FileLoop.next_standingAt]
  | noise => simp [Sources.next, sources, frame, count, Noise.next_standingAt]
  | impulse => simp [Sources.next, sources, frame, count, ImpulseTrain.next_standingAt]
  | sine =>
      simp [Sources.next, sources, frame, count, SourceSettings.advance_toneAt,
        SourceSettings.sine_toneAt]
  | quadSine =>
      simp [Sources.next, sources, frame, count, SourceSettings.advance_toneAt,
        SourceSettings.sine_toneAt, SourceSettings.cosine_toneAt]

theorem act_sources (action : Sources.Action) :
    (turns.sources sampleRate settings random).act action =
      (turns.count action).sources sampleRate settings random := by
  cases action with
  | select kind => rfl
  | setFileFrames frames =>
      simp [Sources.act, Sources.setFileFrames, sources, count, FileLoop.standingAt_zero]
  | next live => exact congrArg Prod.snd (turns.next_sources sampleRate settings random live)

theorem actAll_sources (actions : List Sources.Action) :
    (turns.sources sampleRate settings random).actAll actions =
      (turns.countAll actions).sources sampleRate settings random := by
  induction actions generalizing turns with
  | nil => rfl
  | cons action others ih =>
      rw [Sources.actAll, List.foldl_cons, act_sources]
      exact ih (turns.count action)

end Standing

end Turns

/--
After any switching, replacing and taking, every source stands where its own turns have led
it, and the next frame is that of the turn of the selected one, whatever random generator
the noise draws from.  The position in a file stays below the number of its frames, and the
counter of an impulse train below its period, which is positive and fits a word: no update
divides by zero or leaves the range of its numbers.
-/
theorem Sources.next_by_turns {Random : Type} [RandomGenerator Random] (sampleRate : UInt32)
    (settings : SourceSettings) (actions : List Sources.Action) :
    let sources : Sources Random := (Sources.ofSettings sampleRate settings).actAll actions
    let random : Random := RandomGenerator.ofSeed settings.noiseSeed
    let turns := Turns.start.countAll actions
    sources = turns.sources sampleRate settings random ∧
      (∀ live, (sources.next live).1 = turns.frame sampleRate settings random live) ∧
      sources.file.index < max sources.file.frames.size 1 ∧
      sources.impulse.counter < sources.impulse.period ∧
      sources.impulse.period < UInt64.size := by
  intro sources random turns
  have standing : sources = turns.sources sampleRate settings random := by
    rw [← Turns.actAll_sources, Turns.sources_start]
  refine ⟨standing, ?_⟩
  rw [standing]
  refine ⟨?_, ?_, ?_, ?_⟩
  · intro live
    rw [Turns.next_sources]
  · exact FileLoop.index_standingAt_lt _ _
  · exact Nat.mod_lt _ (settings.impulsePeriod_pos sampleRate)
  · exact settings.impulsePeriod_lt sampleRate

end SignalPatch
