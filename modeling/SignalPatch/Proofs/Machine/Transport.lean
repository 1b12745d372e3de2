import SignalPatch.Proofs.Machine.Tick

/-!
# Run state, transport and lock

Only starts and stops change the run state of a machine, and they open and close
its transport with it.  Only those who take and give back the lock change whether it
is held.
-/

namespace SignalPatch

namespace Event

/-- The run state that an event puts a machine into. -/
def runState? : Event → Option RunState
  | .setRunState runState => some runState
  | _ => none

theorem runState?_of_mem_ofBlock {input : Array Sample} {length : Nat} {event : Event}
    (member : event ∈ ofBlock input length) : event.runState? = none := by
  rcases List.mem_cons.mp member with rfl | inTicks
  · rfl
  · obtain ⟨_, _, rfl⟩ := List.mem_map.mp inTicks
    rfl

end Event

namespace Operation

/-- Whether a transport is open behind an operation that opens or closes it. -/
def isOpen? : Operation → Option Bool
  | .start (.ok ()) => some true
  | .start (.error _) | .stop => some false
  | _ => none

/-- Whether a lock is held behind an operation that takes it or gives it back. -/
def held? : Operation → Option Bool
  | .acquire => some true
  | .release | .poison => some false
  | _ => none

end Operation

namespace Machine

theorem runState_react (machine : Machine) (event : Event) :
    (machine.react event).runState = event.runState?.getD machine.runState := by
  cases event with
  | tick live => exact (machine.tick_keeps live).2.2
  | setSlider index value =>
      simp only [react, setSlider]
      split
      · rfl
      · rfl
  | load | decayLevels | setSource | setFileFrames | setRunState => rfl

theorem runState_reactAll {events : List Event}
    (keep : ∀ event ∈ events, event.runState? = none) (machine : Machine) :
    (machine.reactAll events).runState = machine.runState := by
  induction events generalizing machine with
  | nil => rfl
  | cons event others ih =>
      have first := machine.runState_react event
      rw [keep event (List.mem_cons_self ..)] at first
      have rest := ih (fun other member => keep other (List.mem_cons_of_mem _ member))
        (machine.react event)
      exact rest.trans first

end Machine

namespace VirtualMachine

theorem isOpen_perform (virtual : VirtualMachine) (operation : Operation) :
    (virtual.perform operation).isOpen = operation.isOpen?.getD virtual.isOpen := by
  obtain ⟨core, isOpen⟩ := virtual
  cases operation with
  | pull => cases isOpen <;> rfl
  | start opened =>
      cases opened with
      | ok => rfl
      | error => cases isOpen <;> rfl
  | load | tick | block | setSlider | setSource | setFileFrames | stop | acquire | release
  | poison => rfl

theorem held_perform (virtual : VirtualMachine) (operation : Operation) :
    (virtual.perform operation).core.held = operation.held?.getD virtual.core.held := by
  obtain ⟨⟨machine, held, poisoned⟩, isOpen⟩ := virtual
  cases operation with
  | tick | block => cases held <;> rfl
  | pull => cases isOpen <;> cases held <;> rfl
  | start opened => cases opened <;> cases isOpen <;> rfl
  | load | setSlider | setSource | setFileFrames | stop | acquire | release | poison => rfl

/-- Whether the transport is open exactly if the machine runs. -/
def InStep (virtual : VirtualMachine) : Prop :=
  virtual.isOpen = virtual.isRunning

theorem inStep_create (config : EngineConfig) : (create config).InStep :=
  rfl

theorem inStep_of_kept {before after : VirtualMachine} (inStep : before.InStep)
    (isOpenEq : after.isOpen = before.isOpen)
    (runStateEq : after.core.machine.runState = before.core.machine.runState) :
    after.InStep := by
  rw [InStep, isRunning, runStateEq, isOpenEq]
  exact inStep

/-- What needs the lock to be free changes no run state where it plays only. -/
theorem runState_ifFree {virtual : VirtualMachine} {events : List Event}
    (keep : ∀ event ∈ events, event.runState? = none) (machine : Machine) :
    (machine.reactAll (virtual.ifFree events)).runState = machine.runState := by
  unfold ifFree
  split
  · rfl
  · exact Machine.runState_reactAll keep machine

theorem InStep.perform {virtual : VirtualMachine} (inStep : virtual.InStep)
    (operation : Operation) : (virtual.perform operation).InStep := by
  have machineEq := virtual.machine_perform operation
  cases operation with
  | tick live =>
      refine inStep_of_kept inStep rfl ?_
      rw [machineEq]
      refine runState_ifFree ?_ _
      intro event member
      rw [List.mem_singleton.mp member]
      rfl
  | block input length =>
      refine inStep_of_kept inStep rfl ?_
      rw [machineEq]
      exact runState_ifFree (fun _ => Event.runState?_of_mem_ofBlock) _
  | pull input length =>
      -- a block is passed on through an open transport only
      cases isOpenEq : virtual.isOpen with
      | false =>
          have unchanged : virtual.perform (.pull input length) = virtual := by
            simp [VirtualMachine.perform, pull, isOpenEq]
          rw [unchanged]
          exact inStep
      | true =>
          refine inStep_of_kept inStep ?_ ?_
          · simp only [VirtualMachine.perform, pull, isOpenEq, ↓reduceIte]
            exact isOpenEq
          · rw [machineEq, events, if_pos isOpenEq]
            exact runState_ifFree (fun _ => Event.runState?_of_mem_ofBlock) _
  | setSlider index value =>
      refine inStep_of_kept inStep rfl ?_
      exact virtual.core.machine.runState_react (.setSlider index value)
  | start opened =>
      cases opened with
      | ok => rfl
      | error =>
          cases isOpenEq : virtual.isOpen with
          | true => simp [VirtualMachine.perform, start, isOpenEq]; rfl
          | false => simpa [VirtualMachine.perform, start, isOpenEq] using inStep
  | stop => rfl
  | load | setSource | setFileFrames | acquire | release | poison =>
      exact inStep_of_kept inStep rfl rfl

theorem InStep.performAll {virtual : VirtualMachine} (inStep : virtual.InStep)
    (operations : List Operation) : (virtual.performAll operations).InStep := by
  induction operations generalizing virtual with
  | nil => exact inStep
  | cons operation others ih => exact ih (inStep.perform operation)

end VirtualMachine

end SignalPatch
