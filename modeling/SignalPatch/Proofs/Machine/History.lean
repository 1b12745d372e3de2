import SignalPatch.Machine.Virtual

/-!
# Histories

Whatever is done with a virtual machine from outside happens to its machine as a
sequence of events.  An invariant that every event keeps holds in every state
that some history leads to.
-/

namespace SignalPatch

/-- What can be done with a virtual machine from outside. -/
inductive Operation where
  | load (patch : Patch)
  | tick (live : Frame)
  /-- A block without the transport. -/
  | block (input : Array Sample) (length : Nat)
  /-- A block through the transport. -/
  | pull (input : Array Sample) (length : Nat)
  | setSlider (index : Nat) (value : Sample)
  | setSource (kind : SourceKind)
  | setFileFrames (frames : Array Frame)
  /-- An attempt to start, and what came of opening the transport. -/
  | start (opened : Except TransportError Unit)
  | stop
  | acquire | release | poison

inductive Answer where
  | frame (frame : Frame)
  | samples (samples : Array Sample)
  /-- Whether the transport opened. -/
  | opening (result : Except TransportError Unit)
  | done

/-- What can happen to a machine. -/
inductive Event where
  | load (patch : Patch)
  | tick (live : Frame)
  | decayLevels
  | setSlider (index : Nat) (value : Sample)
  | setSource (kind : SourceKind)
  | setFileFrames (frames : Array Frame)
  | setRunState (runState : RunState)

namespace Operation

/-- The patch that an operation loads. -/
def loaded? : Operation → Option Patch
  | .load patch => some patch
  | _ => none

/-- The slider that an operation sets, and its new value. -/
def setting? : Operation → Option (Nat × Sample)
  | .setSlider index value => some (index, value)
  | _ => none

end Operation

namespace Event

def loaded? : Event → Option Patch
  | .load patch => some patch
  | _ => none

def setting? : Event → Option (Nat × Sample)
  | .setSlider index value => some (index, value)
  | _ => none

end Event

namespace Machine

def react (machine : Machine) : Event → Machine
  | .load patch => machine.load patch
  | .tick live => (machine.tick live).2
  | .decayLevels => machine.decayLevels
  | .setSlider index value => machine.setSlider index value
  | .setSource kind => machine.setSource kind
  | .setFileFrames frames => machine.setFileFrames frames
  | .setRunState runState => machine.setRunState runState

def reactAll (machine : Machine) (events : List Event) : Machine :=
  events.foldl react machine

end Machine

namespace Event

/-- The ticks of so many frames, from the frame at an index on. -/
def ticks (input : Array Sample) (index frames : Nat) : List Event :=
  (List.range' index frames).map (fun index => .tick (Machine.frameAt input index))

def ofBlock (input : Array Sample) (length : Nat) : List Event :=
  .decayLevels :: ticks input 0 ((length + 1) / 2)

end Event

namespace Machine

theorem fill_eq_reactAll (input : Array Sample) (frames index : Nat) (output : Array Sample)
    (machine : Machine) :
    (fill input frames index output machine).2 =
      machine.reactAll (Event.ticks input index frames) := by
  induction frames generalizing index output machine with
  | zero => rfl
  | succ frames ih => exact ih (index + 1) _ _

theorem processInto_eq_reactAll (machine : Machine) (input output : Array Sample) :
    (machine.processInto input output).2 =
      machine.reactAll (Event.ofBlock input output.size) :=
  fill_eq_reactAll input _ 0 output machine.decayLevels

theorem processBlock_eq_reactAll (machine : Machine) (input : Array Sample) (length : Nat) :
    (machine.processBlock input length).2 = machine.reactAll (Event.ofBlock input length) := by
  have intoEq := machine.processInto_eq_reactAll input (Array.replicate length 0)
  rwa [Array.size_replicate] at intoEq

end Machine

namespace VirtualMachine

def perform (virtual : VirtualMachine) : Operation → VirtualMachine
  | .load patch => virtual.control (·.load patch)
  | .tick live => (virtual.tick live).2
  | .block input length => (virtual.onCore (·.processBlock input length)).2
  | .pull input length => (virtual.pull input length).2
  | .setSlider index value => virtual.control (·.setSlider index value)
  | .setSource kind => virtual.control (·.setSource kind)
  | .setFileFrames frames => virtual.control (·.setFileFrames frames)
  | .start opened => (virtual.start opened).2
  | .stop => virtual.stop
  | .acquire => virtual.control Core.acquire
  | .release => virtual.control Core.release
  | .poison => virtual.control Core.poison

def performAll (virtual : VirtualMachine) (operations : List Operation) : VirtualMachine :=
  operations.foldl perform virtual

/-- What someone who asks for an operation is told. -/
def answer (virtual : VirtualMachine) : Operation → Answer
  | .tick live => .frame (virtual.tick live).1
  | .block input length => .samples (virtual.onCore (·.processBlock input length)).1
  | .pull input length => .samples (virtual.pull input length).1
  | .start opened => .opening (virtual.start opened).1
  | _ => .done

def ifFree (virtual : VirtualMachine) (events : List Event) : List Event :=
  if virtual.core.held then [] else events

/-- What an operation makes happen to the machine. -/
def events (virtual : VirtualMachine) : Operation → List Event
  | .load patch => [.load patch]
  | .tick live => virtual.ifFree [.tick live]
  | .block input length => virtual.ifFree (Event.ofBlock input length)
  | .pull input length => if virtual.isOpen then virtual.ifFree (Event.ofBlock input length) else []
  | .setSlider index value => [.setSlider index value]
  | .setSource kind => [.setSource kind]
  | .setFileFrames frames => [.setFileFrames frames]
  | .start opened =>
      (if virtual.isOpen then [.setRunState .stopped] else []) ++
        (match opened with
          | .ok () => [.setRunState .running]
          | .error _ => [])
  | .stop => [.setRunState .stopped]
  | .acquire | .release | .poison => []

private theorem machine_attempt {Result : Type} (busy : Result) (core : Core)
    (action : Machine → Result × Machine) (events : List Event)
    (actionEq : (action core.machine).2 = core.machine.reactAll events) :
    (core.attempt busy action).2.machine =
      core.machine.reactAll (if core.held then [] else events) := by
  obtain ⟨machine, held, poisoned⟩ := core
  cases held with
  | true => rfl
  | false => exact actionEq

theorem machine_perform (virtual : VirtualMachine) (operation : Operation) :
    (virtual.perform operation).core.machine =
      virtual.core.machine.reactAll (virtual.events operation) := by
  obtain ⟨core, isOpen⟩ := virtual
  cases operation with
  | tick live =>
      exact machine_attempt _ core (fun machine => machine.tick live) [.tick live] rfl
  | block input length =>
      exact machine_attempt _ core (fun machine => machine.processBlock input length) _
        (core.machine.processBlock_eq_reactAll input length)
  | pull input length =>
      cases isOpen with
      | false => rfl
      | true =>
          exact machine_attempt _ core (fun machine => machine.processBlock input length) _
            (core.machine.processBlock_eq_reactAll input length)
  | start opened => cases opened <;> cases isOpen <;> rfl
  | load | setSlider | setSource | setFileFrames | stop | acquire | release | poison => rfl

/-- An operation makes events happen that load what it loads and set what it sets. -/
theorem same_of_mem_events {virtual : VirtualMachine} {operation : Operation} {event : Event}
    (member : event ∈ virtual.events operation) :
    event.loaded? = operation.loaded? ∧ event.setting? = operation.setting? := by
  have ofBlock : ∀ input length, event ∈ virtual.ifFree (Event.ofBlock input length) →
      event.loaded? = none ∧ event.setting? = none := by
    intro input length inBlock
    unfold ifFree at inBlock
    split at inBlock
    · cases inBlock
    · rcases List.mem_cons.mp inBlock with rfl | inTicks
      · exact ⟨rfl, rfl⟩
      · obtain ⟨_, _, rfl⟩ := List.mem_map.mp inTicks
        exact ⟨rfl, rfl⟩
  cases operation with
  | block input length => exact ofBlock input length member
  | pull input length =>
      simp only [events] at member
      split at member
      · exact ofBlock input length member
      · cases member
  | tick live =>
      simp only [events, ifFree] at member
      split at member
      · cases member
      · rw [List.mem_singleton.mp member]
        exact ⟨rfl, rfl⟩
  | start opened =>
      rcases List.mem_append.mp member with closing | opening
      · split at closing
        · rw [List.mem_singleton.mp closing]
          exact ⟨rfl, rfl⟩
        · cases closing
      · cases opened with
        | ok =>
            rw [List.mem_singleton.mp opening]
            exact ⟨rfl, rfl⟩
        | error => cases opening
  | load | setSlider | setSource | setFileFrames | stop =>
      rw [List.mem_singleton.mp member]
      exact ⟨rfl, rfl⟩
  | acquire | release | poison => cases member

theorem performAll_concat (virtual : VirtualMachine) (operations : List Operation)
    (last : Operation) :
    virtual.performAll (operations ++ [last]) = (virtual.performAll operations).perform last :=
  List.foldl_append

end VirtualMachine

namespace Machine

/-- A state that some operations lead to from the creation of a machine. -/
def Reachable (config : EngineConfig) (machine : Machine) : Prop :=
  ∃ operations, ((VirtualMachine.create config).performAll operations).core.machine = machine

namespace Reachable

/-- What holds at first and is kept by every event holds in every reachable state. -/
theorem invariant {config : EngineConfig} {holds : Machine → Prop}
    (created : holds (Machine.create config))
    (kept : ∀ machine event, holds machine → holds (machine.react event))
    {machine : Machine} (reachable : Reachable config machine) : holds machine := by
  have keptByAll : ∀ (events : List Event) machine, holds machine →
      holds (machine.reactAll events) := by
    intro events
    induction events with
    | nil => exact fun machine before => before
    | cons event others ih => exact fun machine before => ih _ (kept machine event before)
  obtain ⟨operations, rfl⟩ := reachable
  have general : ∀ virtual : VirtualMachine, holds virtual.core.machine →
      holds (virtual.performAll operations).core.machine := by
    induction operations with
    | nil => exact fun virtual before => before
    | cons operation others ih =>
        intro virtual before
        refine ih (virtual.perform operation) ?_
        rw [virtual.machine_perform]
        exact keptByAll _ _ before
  exact general _ created

end Reachable

end Machine

end SignalPatch
