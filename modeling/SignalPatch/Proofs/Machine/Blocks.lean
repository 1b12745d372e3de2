import SignalPatch.Proofs.Machine.Tick

/-!
# Blocks

A block is filled with the frames of as many ticks as it needs, in order, where the
last frame may be cut in half.  The input peaks, which fall with every block, are
heard by nobody: they change no frame and no other part of the state.
-/

namespace SignalPatch

/-- Frames as interleaved samples. -/
def interleaved (frames : List Frame) : List Sample :=
  frames.flatMap (fun frame => [frame.left, frame.right])

theorem interleaved_append (first second : List Frame) :
    interleaved (first ++ second) = interleaved first ++ interleaved second :=
  List.flatMap_append

@[simp]
theorem length_interleaved (frames : List Frame) :
    (interleaved frames).length = 2 * frames.length := by
  induction frames with
  | nil => rfl
  | cons frame others ih =>
      change (frame.left :: frame.right :: interleaved others).length = _
      simp only [List.length_cons, ih]
      omega

theorem getElem?_interleaved (frames : List Frame) (index : Nat) :
    (interleaved frames)[2 * index]? = frames[index]?.map Frame.left ∧
      (interleaved frames)[2 * index + 1]? = frames[index]?.map Frame.right := by
  induction frames generalizing index with
  | nil => exact ⟨rfl, rfl⟩
  | cons frame others ih =>
      cases index with
      | zero => exact ⟨rfl, rfl⟩
      | succ index => exact ih index

theorem interleaved_replicate_silence (count : Nat) :
    interleaved (List.replicate count .silence) = List.replicate (2 * count) 0 := by
  induction count with
  | zero => rfl
  | succ count ih => exact congrArg (fun rest => (0 : Sample) :: 0 :: rest) ih

namespace Machine

/-- The frames that a machine plays, one for each frame of the sound card. -/
def play (machine : Machine) : List Frame → List Frame
  | [] => []
  | live :: others => (machine.tick live).1 :: (machine.tick live).2.play others

/-- What the guard says to each of these ticks. -/
def guards (machine : Machine) : List Frame → List (Option Guard)
  | [] => []
  | live :: others => machine.abort? live :: (machine.tick live).2.guards others

/-- A machine after a tick for each frame of the sound card. -/
def afterAll (machine : Machine) (lives : List Frame) : Machine :=
  machine.reactAll (lives.map .tick)

@[simp]
theorem afterAll_cons (machine : Machine) (live : Frame) (others : List Frame) :
    machine.afterAll (live :: others) = (machine.tick live).2.afterAll others :=
  rfl

theorem afterAll_append (machine : Machine) (first second : List Frame) :
    machine.afterAll (first ++ second) = (machine.afterAll first).afterAll second := by
  simp [afterAll, reactAll]

theorem play_append (machine : Machine) (first second : List Frame) :
    machine.play (first ++ second) =
      machine.play first ++ (machine.afterAll first).play second := by
  induction first generalizing machine with
  | nil => rfl
  | cons live others ih => simp [play, ih]

@[simp]
theorem length_play (machine : Machine) (lives : List Frame) :
    (machine.play lives).length = lives.length := by
  induction lives generalizing machine with
  | nil => rfl
  | cons live others ih => simp [play, ih]

/-- The guard is counted once for every tick that it aborts. -/
theorem guardTrips_afterAll (machine : Machine) (lives : List Frame) :
    (machine.afterAll lives).guardTrips =
      machine.guardTrips + (machine.guards lives).countP Option.isSome := by
  induction lives generalizing machine with
  | nil => rfl
  | cons live others ih =>
      rw [afterAll_cons, ih, guards]
      cases aborts : machine.abort? live with
      | none => simp [tick_of_no_abort aborts]
      | some guard =>
          rw [(tick_of_abort aborts).2, List.countP_cons_of_pos rfl]
          omega

/-- A machine with other input peaks and other telemetry. -/
def withDisplays (machine : Machine) (levels : Frame) (telemetry : Telemetry) : Machine :=
  { machine with levels, telemetry }

/-- What is displayed is not heard, and the telemetry is shown what is played. -/
theorem tick_withDisplays (machine : Machine) (levels : Frame) (telemetry : Telemetry)
    (live : Frame) :
    ∃ raised, (machine.withDisplays levels telemetry).tick live =
      ((machine.tick live).1,
        (machine.tick live).2.withDisplays raised (telemetry.push (machine.tick live).1)) := by
  cases idle : machine.isIdle with
  | true =>
      have otherIdle : (machine.withDisplays levels telemetry).isIdle = true := idle
      exact ⟨levels, by rw [tick_of_idle idle, tick_of_idle otherIdle]; rfl⟩
  | false =>
      have otherActive : (machine.withDisplays levels telemetry).isIdle = false := idle
      refine ⟨levels.raise (machine.heard live), ?_⟩
      cases verdictEq : machine.verdict live with
      | ok memory =>
          have otherVerdict : (machine.withDisplays levels telemetry).verdict live = .ok memory :=
            verdictEq
          rw [tick_of_completed idle verdictEq, tick_of_completed otherActive otherVerdict]
          rfl
      | error aborted =>
          have otherVerdict :
              (machine.withDisplays levels telemetry).verdict live = .error aborted := verdictEq
          rw [tick_of_aborted idle verdictEq, tick_of_aborted otherActive otherVerdict]
          rfl

theorem telemetry_tick (machine : Machine) (live : Frame) :
    (machine.tick live).2.telemetry = machine.telemetry.push (machine.tick live).1 := by
  -- the displays are set to what they are already
  obtain ⟨raised, tickEq⟩ := machine.tick_withDisplays machine.levels machine.telemetry live
  exact congrArg (fun played => played.2.telemetry) tickEq

/-- A machine with other input peaks. -/
def withLevels (machine : Machine) (levels : Frame) : Machine :=
  { machine with levels }

theorem tick_withLevels (machine : Machine) (levels live : Frame) :
    ∃ raised, (machine.withLevels levels).tick live =
      ((machine.tick live).1, (machine.tick live).2.withLevels raised) := by
  obtain ⟨raised, tickEq⟩ := machine.tick_withDisplays levels machine.telemetry live
  rw [← machine.telemetry_tick live] at tickEq
  exact ⟨raised, tickEq⟩

theorem play_withLevels (machine : Machine) (levels : Frame) (lives : List Frame) :
    (machine.withLevels levels).play lives = machine.play lives ∧
      ∃ raised, (machine.withLevels levels).afterAll lives =
        (machine.afterAll lives).withLevels raised := by
  induction lives generalizing machine levels with
  | nil => exact ⟨rfl, levels, rfl⟩
  | cons live others ih =>
      obtain ⟨raised, tickEq⟩ := machine.tick_withLevels levels live
      obtain ⟨playEq, afterEq⟩ := ih (machine.tick live).2 raised
      refine ⟨?_, ?_⟩
      · rw [play, play, tickEq, playEq]
      · rw [afterAll_cons, afterAll_cons, tickEq]
        exact afterEq

/-- So many frames that the sound card delivers, from an index on. -/
def livesFrom (input : Array Sample) (index frames : Nat) : List Frame :=
  (List.range' index frames).map (frameAt input)

/-- The frames that the sound card delivers for so many cells. -/
def livesFor (input : Array Sample) (cells : Nat) : List Frame :=
  livesFrom input 0 ((cells + 1) / 2)

theorem reactAll_ticks (machine : Machine) (input : Array Sample) (index frames : Nat) :
    machine.reactAll (Event.ticks input index frames) =
      machine.afterAll (livesFrom input index frames) := by
  rw [afterAll, livesFrom, List.map_map]
  rfl

@[simp]
theorem size_writeFrame (output : Array Sample) (index : Nat) (frame : Frame) :
    (writeFrame output index frame).size = output.size := by
  simp [writeFrame]

theorem take_set_set (before : List Sample) {behind : List Sample} (cells : behind ≠ [])
    (left right : Sample) :
    (((before ++ behind).set before.length left).set (before.length + 1) right).take
        (before.length + 2) = before ++ [left, right].take behind.length := by
  have whole : before.take (before.length + 2) = before := List.take_of_length_le (by omega)
  match behind, cells with
  | [_], _ => simp [List.take_append, whole]
  | _ :: _ :: _, _ => simp [List.take_append, whole]

/-- A frame is written behind the cells before it, where there are cells for it. -/
theorem take_writeFrame {output : Array Sample} {index : Nat} (inside : 2 * index < output.size)
    (frame : Frame) :
    (writeFrame output index frame).toList.take (2 * (index + 1)) =
      output.toList.take (2 * index) ++
        [frame.left, frame.right].take (output.size - 2 * index) := by
  have beforeLength : (output.toList.take (2 * index)).length = 2 * index := by
    rw [List.length_take, Array.length_toList]
    omega
  have behindLength : (output.toList.drop (2 * index)).length = output.size - 2 * index := by
    rw [List.length_drop, Array.length_toList]
  have someBehind : output.toList.drop (2 * index) ≠ [] := by
    apply List.ne_nil_of_length_pos
    omega
  have written := take_set_set (output.toList.take (2 * index)) someBehind frame.left frame.right
  rw [beforeLength, behindLength, List.take_append_drop] at written
  rw [writeFrame, Array.toList_setIfInBounds, Array.toList_setIfInBounds]
  exact written

/-- A buffer is written over with the frames of the ticks that it has cells for. -/
theorem samples_fill (input : Array Sample) (frames index : Nat) (output : Array Sample)
    (machine : Machine) (countEq : (output.size + 1) / 2 = index + frames) :
    (fill input frames index output machine).1.toList =
      output.toList.take (2 * index) ++
        (interleaved (machine.play (livesFrom input index frames))).take
          (output.size - 2 * index) := by
  induction frames generalizing index output machine with
  | zero =>
      have short : output.toList.length ≤ 2 * index := by
        rw [Array.length_toList]
        omega
      simp [fill, livesFrom, play, interleaved, List.take_of_length_le short]
  | succ frames ih =>
      let played := machine.tick (frameAt input index)
      have restCount : ((writeFrame output index played.1).size + 1) / 2 = index + 1 + frames := by
        rw [size_writeFrame]
        omega
      have rest := ih (index + 1) (writeFrame output index played.1) played.2 restCount
      have restCells : output.size - 2 * (index + 1) = output.size - 2 * index - 2 := by omega
      rw [take_writeFrame (by omega), size_writeFrame, restCells, List.append_assoc] at rest
      refine rest.trans (congrArg _ ?_)
      exact (List.take_append ..).symm

/-- A block lets the input peaks fall once, and is then written tick by tick. -/
theorem processInto_eq_play (machine : Machine) (input output : Array Sample) :
    (machine.processInto input output).1.toList =
        (interleaved (machine.decayLevels.play (livesFor input output.size))).take output.size ∧
      (machine.processInto input output).2 =
        machine.decayLevels.afterAll (livesFor input output.size) := by
  refine ⟨?_, (machine.processInto_eq_reactAll input output).trans (reactAll_ticks ..)⟩
  exact samples_fill input _ 0 output machine.decayLevels (Nat.zero_add _).symm

/-- Whatever stands in a buffer before is written over. -/
theorem processInto_eq (machine : Machine) (input output : Array Sample) :
    machine.processInto input output = machine.processBlock input output.size := by
  obtain ⟨samplesEq, machineEq⟩ := machine.processInto_eq_play input output
  obtain ⟨zerosEq, afterZeros⟩ :=
    machine.processInto_eq_play input (Array.replicate output.size 0)
  rw [Array.size_replicate] at zerosEq afterZeros
  exact Prod.ext (Array.toList_inj.mp (samplesEq.trans zerosEq.symm))
    (machineEq.trans afterZeros.symm)

/-- What a block plays and leaves, as if the input peaks had not fallen before it. -/
theorem processBlock_eq (machine : Machine) (input : Array Sample) (length : Nat) :
    (machine.processBlock input length).1.toList =
        (interleaved (machine.play (livesFor input length))).take length ∧
      ∃ levels, (machine.processBlock input length).2 =
        (machine.afterAll (livesFor input length)).withLevels levels := by
  obtain ⟨samplesEq, machineEq⟩ := machine.processInto_eq_play input (Array.replicate length 0)
  rw [Array.size_replicate] at samplesEq machineEq
  obtain ⟨playEq, levels, afterEq⟩ :=
    machine.play_withLevels (machine.levels.map (· * levelDecay)) (livesFor input length)
  refine ⟨samplesEq.trans ?_, levels, machineEq.trans afterEq⟩
  exact congrArg (fun played => (interleaved played).take length) playEq

end Machine

namespace Core

theorem processBlock_of_held (machine : Machine) (poisoned : Bool) (input : Array Sample)
    (length : Nat) :
    processBlock ⟨machine, true, poisoned⟩ input length =
      (Array.replicate length 0, ⟨machine, true, poisoned⟩) := by
  simp [processBlock, processInto, attempt]

/-- A block is written over any buffer as into one of zeros. -/
theorem processInto_eq (core : Core) (input output : Array Sample) :
    core.processInto input output = core.processBlock input output.size := by
  obtain ⟨machine, held, poisoned⟩ := core
  cases held with
  | true => rw [processBlock_of_held, processInto, attempt, if_pos rfl]
  | false =>
      exact congrArg (fun played => (played.1, Core.mk played.2 false poisoned))
        (machine.processInto_eq input output)

end Core

end SignalPatch
