import SignalPatch.Proofs.Machine.Silence
import SignalPatch.Proofs.Machine.Transport

/-!
# Failed starts

A machine runs exactly while its transport is open, however the attempts to open it went.
A start that succeeds leaves the machine running.  One that fails leaves it stopped and
keeps all that it stands at, and nothing is played until a later start succeeds.
-/

namespace SignalPatch

namespace VirtualMachine

variable {virtual : VirtualMachine}

theorem InStep.running_iff (inStep : virtual.InStep) :
    virtual.core.machine.runState = .running ↔ virtual.isOpen = true := by
  rw [inStep, isRunning, beq_iff_eq]

theorem InStep.stopped (inStep : virtual.InStep) (closed : virtual.isOpen = false) :
    virtual.core.machine.runState = .stopped := by
  cases runStateEq : virtual.core.machine.runState with
  | stopped => rfl
  | running =>
      rw [inStep.running_iff, closed] at runStateEq
      cases runStateEq

theorem closed_perform (closed : virtual.isOpen = false) {operation : Operation}
    (notOpening : operation.isOpen? ≠ some true) :
    (virtual.perform operation).isOpen = false := by
  rw [isOpen_perform, closed]
  cases opens : operation.isOpen? with
  | none => rfl
  | some isOpen =>
      cases isOpen with
      | false => rfl
      | true => exact absurd opens notOpening

theorem closed_performAll (closed : virtual.isOpen = false) {operations : List Operation}
    (notOpening : ∀ operation ∈ operations, operation.isOpen? ≠ some true) :
    (virtual.performAll operations).isOpen = false := by
  induction operations generalizing virtual with
  | nil => exact closed
  | cons operation others ih =>
      have closedBehind := closed_perform closed (notOpening operation (List.mem_cons_self ..))
      exact ih closedBehind (fun other member =>
        notOpening other (List.mem_cons_of_mem _ member))

/-- A failed start stops a machine and changes nothing else but its input peaks. -/
theorem perform_failedStart (inStep : virtual.InStep) (error : TransportError) :
    (virtual.perform (.start (.error error))).isOpen = false ∧
      ∃ levels, (virtual.perform (.start (.error error))).core.machine =
        { virtual.core.machine with runState := .stopped, levels } := by
  cases openEq : virtual.isOpen with
  | true =>
      simp only [VirtualMachine.perform, start, openEq, if_true]
      exact ⟨rfl, .silence, rfl⟩
  | false =>
      have stopped := inStep.stopped openEq
      simp only [VirtualMachine.perform, start, openEq, Bool.false_eq_true, if_false]
      exact ⟨trivial, virtual.core.machine.levels, by rw [← stopped]⟩

/-- A start that succeeds runs a machine and forgets its input peaks, and keeps the rest. -/
theorem perform_openedStart (virtual : VirtualMachine) :
    (virtual.perform (.start (.ok ()))).isOpen = true ∧
      (virtual.perform (.start (.ok ()))).core.machine =
        { virtual.core.machine with runState := .running, levels := .silence } := by
  cases openEq : virtual.isOpen with
  | true =>
      simp only [VirtualMachine.perform, start, openEq, if_true]
      exact ⟨trivial, rfl⟩
  | false =>
      simp only [VirtualMachine.perform, start, openEq, Bool.false_eq_true, if_false]
      exact ⟨trivial, rfl⟩

theorem stop_stop (virtual : VirtualMachine) : virtual.stop.stop = virtual.stop :=
  rfl

/--
Whatever has been done with a machine since it was created, it runs exactly if its
transport is open.  A start that succeeds leaves it running and its transport open, and
keeps the rest of it but the input peaks.  A start that fails leaves it stopped and its
transport closed, and keeps the rest likewise; it is silent until a later start succeeds.
A second stop changes nothing.
-/
theorem running_iff_open (config : EngineConfig) (operations : List Operation) :
    let virtual := (create config).performAll operations
    (virtual.core.machine.runState = .running ↔ virtual.isOpen = true) ∧
      (virtual.answer (.start (.ok ())) = .opening (.ok ()) ∧
        (virtual.perform (.start (.ok ()))).isOpen = true ∧
        (virtual.perform (.start (.ok ()))).core.machine =
          { virtual.core.machine with runState := .running, levels := .silence }) ∧
      (∀ error, let failed := virtual.perform (.start (.error error))
        virtual.answer (.start (.error error)) = .opening (.error error) ∧
          failed.isOpen = false ∧
          (∃ levels, failed.core.machine =
            { virtual.core.machine with runState := .stopped, levels }) ∧
          ∀ later, (∀ operation ∈ later, operation.isOpen? ≠ some true) →
            ∀ operation, operation.plays = true →
              (failed.performAll later).answer operation = operation.silence) ∧
      virtual.stop.stop = virtual.stop := by
  intro virtual
  have inStep : virtual.InStep := (inStep_create config).performAll operations
  refine ⟨inStep.running_iff, ⟨rfl, virtual.perform_openedStart⟩, ?_, virtual.stop_stop⟩
  intro error failed
  obtain ⟨closed, kept⟩ := perform_failedStart inStep error
  refine ⟨rfl, closed, kept, ?_⟩
  intro later notOpening operation plays
  have laterInStep : (failed.performAll later).InStep :=
    (inStep.perform (.start (.error error))).performAll later
  have stopped := laterInStep.stopped (closed_performAll closed notOpening)
  have idle : (failed.performAll later).core.machine.isIdle = true := by
    simp [Machine.isIdle, stopped]
  exact (silent_of_idle idle plays).1

/--
A machine that plays a constant, and then does not start again as its device is busy.  It
starts when the device is free.
-/
theorem silent_after_failedStart :
    let virtual := (create .standard).performAll
      [.load ⟨⟨[.load 1, .write 0], 0⟩, .ofNames ["out"]⟩, .start (.ok ())]
    let failed := virtual.perform (.start (.error (.unavailable "device busy")))
    virtual.answer (.tick .silence) = .frame (.mono 1) ∧
      (failed.performAll [.stop, .setSource .noise]).answer (.tick .silence) =
        .frame .silence ∧
      (failed.perform (.start (.ok ()))).isOpen = true := by
  intro virtual failed
  obtain ⟨_, _, failing, _⟩ := running_iff_open .standard
    [.load ⟨⟨[.load 1, .write 0], 0⟩, .ofNames ["out"]⟩, .start (.ok ())]
  obtain ⟨_, _, _, silent⟩ := failing (.unavailable "device busy")
  obtain ⟨_, ⟨_, opened, _⟩, _⟩ := running_iff_open .standard
    [.load ⟨⟨[.load 1, .write 0], 0⟩, .ofNames ["out"]⟩, .start (.ok ()),
      .start (.error (.unavailable "device busy"))]
  refine ⟨congrArg Answer.frame (by decide +kernel), ?_, opened⟩
  exact silent [.stop, .setSource .noise] (by simp [Operation.isOpen?]) (.tick .silence) rfl

end VirtualMachine

end SignalPatch
