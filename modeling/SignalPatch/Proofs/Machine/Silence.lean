import SignalPatch.Proofs.Machine.Blocks

/-!
# Silence

A machine that is stopped or has no program plays silence, and so does one whose lock is
held.  In silence a machine stands still: at most its input peaks fall, and its telemetry
goes on.
-/

namespace SignalPatch

namespace Operation

/-- Whether an operation asks for a frame or a block. -/
def plays : Operation → Bool
  | .tick _ | .block .. | .pull .. => true
  | _ => false

/-- What is answered to an operation that plays nothing. -/
def silence : Operation → Answer
  | .tick _ => .frame .silence
  | .block _ length | .pull _ length => .samples (Array.replicate length 0)
  | _ => .done

end Operation

namespace Machine

/-- Machines that differ at most in their input peaks and their telemetry. -/
def SameSignal (first second : Machine) : Prop :=
  ∃ levels telemetry, second = first.withDisplays levels telemetry

theorem SameSignal.refl (machine : Machine) : machine.SameSignal machine :=
  ⟨machine.levels, machine.telemetry, rfl⟩

theorem SameSignal.symm {first second : Machine} (same : first.SameSignal second) :
    second.SameSignal first := by
  obtain ⟨levels, telemetry, rfl⟩ := same
  exact ⟨first.levels, first.telemetry, rfl⟩

theorem SameSignal.trans {first second third : Machine} (left : first.SameSignal second)
    (right : second.SameSignal third) : first.SameSignal third := by
  obtain ⟨_, _, rfl⟩ := left
  obtain ⟨levels, telemetry, rfl⟩ := right
  exact ⟨levels, telemetry, rfl⟩

theorem SameSignal.isIdle_eq {first second : Machine} (same : first.SameSignal second) :
    second.isIdle = first.isIdle := by
  obtain ⟨_, _, rfl⟩ := same
  rfl

theorem sameSignal_withLevels (machine : Machine) (levels : Frame) :
    machine.SameSignal (machine.withLevels levels) :=
  ⟨levels, machine.telemetry, rfl⟩

variable {machine : Machine}

/-- An idle machine stands still, and stays idle. -/
theorem standsStill_of_idle (idle : machine.isIdle = true) (lives : List Frame) :
    machine.play lives = List.replicate lives.length .silence ∧
      machine.SameSignal (machine.afterAll lives) := by
  induction lives generalizing machine with
  | nil => exact ⟨rfl, .refl machine⟩
  | cons live others ih =>
      have tickEq := tick_of_idle idle live
      have first : machine.SameSignal (machine.tick live).2 := by
        rw [tickEq]
        exact ⟨_, _, rfl⟩
      obtain ⟨playEq, rest⟩ := ih (first.isIdle_eq.trans idle)
      refine ⟨?_, first.trans rest⟩
      rw [play, playEq, tickEq]
      rfl

theorem processBlock_of_idle (idle : machine.isIdle = true) (input : Array Sample)
    (length : Nat) :
    (machine.processBlock input length).1 = Array.replicate length 0 ∧
      machine.SameSignal (machine.processBlock input length).2 := by
  obtain ⟨samplesEq, levels, afterEq⟩ := machine.processBlock_eq input length
  obtain ⟨playEq, still⟩ := standsStill_of_idle idle (livesFor input length)
  refine ⟨?_, ?_⟩
  · apply Array.toList_inj.mp
    have enough : length ≤ 2 * (livesFor input length).length := by
      simp [livesFor, livesFrom]
      omega
    rw [samplesEq, playEq, interleaved_replicate_silence, List.take_replicate, Nat.min_eq_left enough]
    exact Array.toList_replicate.symm
  · rw [afterEq]
    exact still.trans (sameSignal_withLevels _ levels)

end Machine

namespace VirtualMachine

/-- Virtual machines that differ at most in what is displayed and in whether a holder has died. -/
structure SameSignal (first second : VirtualMachine) : Prop where
  machines : first.core.machine.SameSignal second.core.machine
  held_eq : second.core.held = first.core.held
  isOpen_eq : second.isOpen = first.isOpen

variable {virtual : VirtualMachine} {operation : Operation}

theorem SameSignal.refl (virtual : VirtualMachine) : virtual.SameSignal virtual :=
  ⟨.refl _, rfl, rfl⟩

theorem SameSignal.trans {first second third : VirtualMachine} (left : first.SameSignal second)
    (right : second.SameSignal third) : first.SameSignal third :=
  ⟨left.machines.trans right.machines, right.held_eq.trans left.held_eq,
    right.isOpen_eq.trans left.isOpen_eq⟩

/-- While its lock is held, a machine is not played at all. -/
theorem silent_of_held (held : virtual.core.held = true) (plays : operation.plays = true) :
    virtual.answer operation = operation.silence ∧ virtual.perform operation = virtual := by
  obtain ⟨⟨machine, _, poisoned⟩, isOpen⟩ := virtual
  cases held
  cases operation with
  | tick => exact ⟨rfl, rfl⟩
  | block input length =>
      have zerosEq := Core.processBlock_of_held machine poisoned input length
      exact ⟨congrArg (Answer.samples ∘ Prod.fst) zerosEq, rfl⟩
  | pull input length =>
      cases isOpen with
      | false => exact ⟨rfl, rfl⟩
      | true =>
          have zerosEq := Core.processBlock_of_held machine poisoned input length
          exact ⟨congrArg (Answer.samples ∘ Prod.fst) zerosEq, rfl⟩
  | load | setSlider | setSource | setFileFrames | start | stop | acquire | release | poison =>
      cases plays

/-- An idle machine is silent, whether or not its lock is held. -/
theorem silent_of_idle (idle : virtual.core.machine.isIdle = true)
    (plays : operation.plays = true) :
    virtual.answer operation = operation.silence ∧
      virtual.SameSignal (virtual.perform operation) := by
  cases heldEq : virtual.core.held with
  | true =>
      obtain ⟨answerEq, performEq⟩ := silent_of_held heldEq plays
      refine ⟨answerEq, ?_⟩
      rw [performEq]
      exact .refl virtual
  | false =>
      obtain ⟨⟨machine, _, poisoned⟩, isOpen⟩ := virtual
      cases heldEq
      cases operation with
      | tick live =>
          have tickEq := Machine.tick_of_idle idle live
          refine ⟨congrArg (Answer.frame ∘ Prod.fst) tickEq, ?_, rfl, rfl⟩
          exact (Machine.standsStill_of_idle idle [live]).2
      | block input length =>
          obtain ⟨samplesEq, still⟩ := Machine.processBlock_of_idle idle input length
          exact ⟨congrArg Answer.samples samplesEq, still, rfl, rfl⟩
      | pull input length =>
          cases isOpen with
          | false => exact ⟨rfl, .refl _⟩
          | true =>
              obtain ⟨samplesEq, still⟩ := Machine.processBlock_of_idle idle input length
              exact ⟨congrArg Answer.samples samplesEq, still, rfl, rfl⟩
      | load | setSlider | setSource | setFileFrames | start | stop | acquire | release
      | poison => cases plays

end VirtualMachine

end SignalPatch
