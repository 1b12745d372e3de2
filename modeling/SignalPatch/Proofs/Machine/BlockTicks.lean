import SignalPatch.Proofs.Machine.Blocks
import SignalPatch.Proofs.Queues.LostFrames

/-!
# Blocks tick by tick

A block takes exactly as many ticks as its cells need, each on the frame that stands at
its place in the input, or on silence if the input ends before.  All cells are filled, and
all frames that are played come to both taps, also the last one if only half of it is
filled in.  So a block may be cut anywhere between two frames, which at most changes how
often the input peaks fall.
-/

namespace SignalPatch

namespace Machine

theorem telemetry_afterAll (machine : Machine) (lives : List Frame) :
    (machine.afterAll lives).telemetry =
      (machine.play lives).foldl Telemetry.push machine.telemetry := by
  induction lives generalizing machine with
  | nil => rfl
  | cons live others ih => rw [afterAll_cons, ih, telemetry_tick, play, List.foldl_cons]

end Machine

/-- Every tap is offered every frame. -/
theorem Telemetry.ring_foldl_push (telemetry : Telemetry) (tap : Tap) (frames : List Frame) :
    (frames.foldl push telemetry).ring tap = frames.foldl offer (telemetry.ring tap) := by
  induction frames generalizing telemetry with
  | nil => rfl
  | cons frame others ih =>
      rw [List.foldl_cons, List.foldl_cons, ih]
      exact congrArg (others.foldl offer) (telemetry.ring_act tap (.push frame))

namespace Machine

theorem frameAt_of_complete {input : Array Sample} {index : Nat} {left right : Sample}
    (leftEq : input[2 * index]? = some left) (rightEq : input[2 * index + 1]? = some right) :
    frameAt input index = ⟨left, right⟩ := by
  rw [frameAt, leftEq, rightEq]

theorem frameAt_of_size_le {input : Array Sample} {index : Nat}
    (short : input.size ≤ 2 * index + 1) : frameAt input index = .silence := by
  rw [frameAt, Array.getElem?_eq_none short]
  split
  · contradiction
  · rfl

/-- A machine whose input peaks have fallen by a tenth on both sides. -/
def fallen (machine : Machine) : Machine :=
  { machine with levels := ⟨machine.levels.left * 0.9, machine.levels.right * 0.9⟩ }

theorem decayLevels_eq (machine : Machine) : machine.decayLevels = machine.fallen :=
  rfl

/-- The ticks of a block: what they hear, what they leave, and where their frames go. -/
structure TicksThrough (machine : Machine) (input : Array Sample) (length : Nat)
    (lives : List Frame) (answer : Array Sample × Machine) : Prop where
  length_eq : lives.length = (length + 1) / 2
  heard : ∀ index left right, index < lives.length → input[2 * index]? = some left →
    input[2 * index + 1]? = some right → lives[index]? = some ⟨left, right⟩
  heard_behind : ∀ index < lives.length, input.size ≤ 2 * index + 1 →
    lives[index]? = some .silence
  machine_eq : answer.2 = machine.fallen.afterAll lives
  size_eq : answer.1.size = length
  filled : ∀ index frame, (machine.fallen.play lives)[index]? = some frame →
    answer.1[2 * index]? = some frame.left ∧
      (2 * index + 1 < length → answer.1[2 * index + 1]? = some frame.right)
  offered : ∀ tap, answer.2.telemetry.ring tap =
    (machine.fallen.play lives).foldl Telemetry.offer (machine.telemetry.ring tap)

theorem length_livesFor (input : Array Sample) (cells : Nat) :
    (livesFor input cells).length = (cells + 1) / 2 := by
  simp [livesFor, livesFrom]

theorem getElem?_livesFor {input : Array Sample} {cells place : Nat}
    (inside : place < (livesFor input cells).length) :
    (livesFor input cells)[place]? = some (frameAt input place) := by
  rw [length_livesFor] at inside
  simp [livesFor, livesFrom, inside]

theorem ticksThrough_processInto (machine : Machine) (input output : Array Sample) :
    machine.TicksThrough input output.size (livesFor input output.size)
      (machine.processInto input output) := by
  obtain ⟨samplesEq, machineEq⟩ := machine.processInto_eq_play input output
  rw [decayLevels_eq] at samplesEq machineEq
  have countEq := length_livesFor input output.size
  refine ⟨countEq, ?_, ?_, machineEq, ?_, ?_, ?_⟩
  · intro index left right inside leftEq rightEq
    rw [getElem?_livesFor inside, frameAt_of_complete leftEq rightEq]
  · intro index inside short
    rw [getElem?_livesFor inside, frameAt_of_size_le short]
  · rw [← Array.length_toList, samplesEq, List.length_take, length_interleaved, length_play,
      countEq]
    omega
  · intro index frame played
    obtain ⟨inside, _⟩ := List.getElem?_eq_some_iff.mp played
    rw [length_play, countEq] at inside
    have leftInside : 2 * index < output.size := by omega
    obtain ⟨leftEq, rightEq⟩ :=
      getElem?_interleaved (machine.fallen.play (livesFor input output.size)) index
    rw [played] at leftEq rightEq
    refine ⟨?_, ?_⟩
    · rw [← Array.getElem?_toList, samplesEq, List.getElem?_take_of_lt leftInside, leftEq]
      rfl
    · intro rightInside
      rw [← Array.getElem?_toList, samplesEq, List.getElem?_take_of_lt rightInside, rightEq]
      rfl
  · intro tap
    rw [machineEq, telemetry_afterAll, Telemetry.ring_foldl_push]
    rfl

/-- The frames of a part of the input that is cut out between two frames, or up to its end. -/
theorem frameAt_extract {input : Array Sample} {half index stop : Nat}
    (uncut : 2 * (half + index) + 1 < stop ∨ input.size ≤ stop) :
    frameAt (input.extract (2 * half) stop) index = frameAt input (half + index) := by
  have cells : ∀ side < 2, (input.extract (2 * half) stop)[2 * index + side]? =
      input[2 * (half + index) + side]? := by
    intro side sideInside
    have placeEq : 2 * half + (2 * index + side) = 2 * (half + index) + side := by omega
    rw [Array.getElem?_extract, placeEq]
    split
    · rfl
    · exact (Array.getElem?_eq_none (by omega)).symm
  have leftEq := cells 0 (by omega)
  have rightEq := cells 1 (by omega)
  rw [Nat.add_zero, Nat.add_zero] at leftEq
  rw [frameAt, frameAt, leftEq, rightEq]

/-- What a block hears is what its two parts hear, if the input is cut where the block is. -/
theorem livesFor_cut (input : Array Sample) {half length : Nat} (within : 2 * half ≤ length) :
    livesFor (input.extract 0 (2 * half)) (2 * half) ++
        livesFor (input.extract (2 * half) input.size) (length - 2 * half) =
      livesFor input length := by
  have firstCount : (2 * half + 1) / 2 = half := by omega
  have wholeCount : (length + 1) / 2 = half + (length - 2 * half + 1) / 2 := by omega
  have firstEq : livesFor (input.extract 0 (2 * half)) (2 * half) =
      (List.range' 0 half).map (frameAt input) := by
    rw [livesFor, livesFrom, firstCount]
    refine List.map_congr_left ?_
    intro index member
    have inside : index < half := by simpa using member
    have frameEq : frameAt (input.extract (2 * 0) (2 * half)) index = frameAt input (0 + index) :=
      frameAt_extract (Or.inl (by omega))
    rwa [Nat.zero_add] at frameEq
  have secondEq : livesFor (input.extract (2 * half) input.size) (length - 2 * half) =
      (List.range' half ((length - 2 * half + 1) / 2)).map (frameAt input) := by
    rw [livesFor, livesFrom, ← List.range_eq_range', List.range'_eq_map_range, List.map_map]
    refine List.map_congr_left ?_
    intro index _
    exact frameAt_extract (Or.inr (Nat.le_refl _))
  have wholeEq : List.range' 0 half ++ List.range' half ((length - 2 * half + 1) / 2) =
      List.range' 0 (half + (length - 2 * half + 1) / 2) := by
    simpa using List.range'_append_1 (s := 0) (m := half)
  rw [firstEq, secondEq, livesFor, livesFrom, wholeCount, ← List.map_append, wholeEq]

/-- The input peaks before a block are heard by nobody in it. -/
theorem processBlock_withLevels (machine : Machine) (levels : Frame) (input : Array Sample)
    (length : Nat) :
    ((machine.withLevels levels).processBlock input length).1.toList =
        (interleaved (machine.play (livesFor input length))).take length ∧
      ∃ raised, ((machine.withLevels levels).processBlock input length).2 =
        (machine.afterAll (livesFor input length)).withLevels raised := by
  obtain ⟨samplesEq, raised, machineEq⟩ := (machine.withLevels levels).processBlock_eq input length
  obtain ⟨playEq, _, afterEq⟩ := machine.play_withLevels levels (livesFor input length)
  rw [playEq] at samplesEq
  rw [afterEq] at machineEq
  exact ⟨samplesEq, raised, machineEq⟩

/-- A block that is cut between two frames plays the same, and leaves the same but input peaks. -/
theorem processBlock_cut (machine : Machine) (input : Array Sample) {half length : Nat}
    (within : 2 * half ≤ length) :
    let first := machine.processBlock (input.extract 0 (2 * half)) (2 * half)
    let second := first.2.processBlock (input.extract (2 * half) input.size) (length - 2 * half)
    first.1 ++ second.1 = (machine.processBlock input length).1 ∧
      ∃ levels, second.2 = (machine.processBlock input length).2.withLevels levels := by
  intro first second
  let firstLives := livesFor (input.extract 0 (2 * half)) (2 * half)
  let secondLives := livesFor (input.extract (2 * half) input.size) (length - 2 * half)
  have heardEq : firstLives ++ secondLives = livesFor input length := livesFor_cut input within
  obtain ⟨wholeSamples, wholeLevels, wholeMachine⟩ := machine.processBlock_eq input length
  obtain ⟨firstSamples, firstLevels, firstMachine⟩ :=
    machine.processBlock_eq (input.extract 0 (2 * half)) (2 * half)
  obtain ⟨secondSamples, secondLevels, secondMachine⟩ :=
    (machine.afterAll firstLives).processBlock_withLevels firstLevels
      (input.extract (2 * half) input.size) (length - 2 * half)
  rw [← firstMachine] at secondSamples secondMachine
  rw [← heardEq] at wholeSamples wholeMachine
  have firstLength : (interleaved (machine.play firstLives)).length = 2 * half := by
    rw [length_interleaved, length_play, length_livesFor]
    omega
  refine ⟨?_, ?_⟩
  · apply Array.toList_inj.mp
    calc (first.1 ++ second.1).toList
        = first.1.toList ++ second.1.toList := Array.toList_append
      _ = interleaved (machine.play firstLives) ++
            (interleaved ((machine.afterAll firstLives).play secondLives)).take
              (length - 2 * half) := by
          refine congrArg₂ _ (firstSamples.trans ?_) secondSamples
          exact List.take_of_length_le (Nat.le_of_eq firstLength)
      _ = (interleaved (machine.play (firstLives ++ secondLives))).take length := by
          rw [play_append, interleaved_append, List.take_append, firstLength,
            List.take_of_length_le (firstLength.le.trans within)]
      _ = (machine.processBlock input length).1.toList := wholeSamples.symm
  · refine ⟨secondLevels, secondMachine.trans ?_⟩
    rw [wholeMachine, afterAll_append]
    rfl

end Machine

namespace Core

/--
A block that finds the lock free lets both input peaks fall once to nine tenths and takes
one tick for each frame that the cells of the buffer need, the last of which may fill the
left cell only.  Each tick is on the frame at its place in the input, or on silence where
the input ends before.  Every cell is written over, and every frame that is played is
offered to both taps.  Cut between two frames, a block plays the same and leaves the same
state but input peaks.  A block that finds the lock held is all zeros and changes nothing.
-/
theorem processInto_tick_by_tick (core : Core) (input output : Array Sample) :
    let answer := core.processInto input output
    (core.held = false →
      (∃ lives, core.machine.TicksThrough input output.size lives
        (answer.1, answer.2.machine)) ∧
      (answer.2.held = false ∧ answer.2.poisoned = core.poisoned) ∧
      ∀ half, 2 * half ≤ output.size →
        let first :=
          core.processInto (input.extract 0 (2 * half)) (output.extract 0 (2 * half))
        let second := first.2.processInto (input.extract (2 * half) input.size)
          (output.extract (2 * half) output.size)
        first.1 ++ second.1 = answer.1 ∧
          ∃ levels, second.2 =
            { answer.2 with machine := answer.2.machine.withLevels levels }) ∧
    (core.held = true → answer = (Array.replicate output.size 0, core)) := by
  obtain ⟨machine, held, poisoned⟩ := core
  refine ⟨?_, ?_⟩
  · rintro rfl
    refine ⟨⟨_, machine.ticksThrough_processInto input output⟩, ⟨rfl, rfl⟩, ?_⟩
    intro half within
    have firstSize : (output.extract 0 (2 * half)).size = 2 * half := by
      rw [Array.size_extract]
      omega
    have secondSize : (output.extract (2 * half) output.size).size = output.size - 2 * half := by
      rw [Array.size_extract]
      omega
    obtain ⟨samplesEq, levels, machineEq⟩ := machine.processBlock_cut input within
    simp only [processInto_eq, firstSize, secondSize]
    exact ⟨samplesEq, levels, congrArg (fun after => Core.mk after false poisoned) machineEq⟩
  · rintro rfl
    rfl

/-- The second of two frames is cut in half in the input, so that it is heard as silence. -/
theorem processInto_tick_by_tick_halfFrame :
    let core : Core :=
      ⟨.started .standard ⟨⟨[.read 1, .write 0, .read 3, .write 2], 0⟩,
        .ofNames ["outl", "inr", "outr", "inl"]⟩, false, false⟩
    let input : Array Sample := #[⟨1⟩, ⟨2⟩, ⟨3⟩]
    let output : Array Sample := #[⟨7⟩, ⟨8⟩, ⟨9⟩]
    let first := core.processInto (input.extract 0 2) (output.extract 0 2)
    let second := first.2.processInto (input.extract 2 3) (output.extract 2 3)
    core.held = false ∧ 2 * 1 ≤ output.size ∧
      (∃ lives, core.machine.TicksThrough input 3 lives
        ((core.processInto input output).1, (core.processInto input output).2.machine)) ∧
      (core.processInto input output).1 = #[⟨2⟩, ⟨1⟩, ⟨0⟩] ∧
      first.1 ++ second.1 = #[⟨2⟩, ⟨1⟩, ⟨0⟩] := by
  intro core input output first second
  obtain ⟨ticks, _, cut⟩ := (core.processInto_tick_by_tick input output).1 rfl
  have played : (core.processInto input output).1 = #[⟨2⟩, ⟨1⟩, ⟨0⟩] := by decide +kernel
  exact ⟨rfl, by decide, ticks, played, (cut 1 (by decide)).1.trans played⟩

end Core

end SignalPatch
