import SignalPatch.Proofs.Machine.LeftOvers
import SignalPatch.Proofs.Machine.Transport

/-!
# A load forgets what was loaded before

Two machines whose sources stand alike go on alike once the same patch is loaded
into both, whatever was loaded and done before.  They may still differ in their
telemetry, in how many ticks were aborted before the load, and in what is left over
on their operand stacks.
-/

namespace SignalPatch

namespace Machine

/--
Two machines that differ only in their telemetry, in what is left over on their
stacks, and in how many ticks were aborted: in the second one, so many more.
-/
structure Alike (ahead : Int) (first second : Machine) : Prop where
  runState_eq : second.runState = first.runState
  program_eq : second.program = first.program
  ports_eq : second.ports = first.ports
  table_eq : second.memory.table = first.memory.table
  filters_eq : second.memory.filters = first.memory.filters
  capacity_eq : second.memory.stack.capacity = first.memory.stack.capacity
  sources_eq : second.sources = first.sources
  levels_eq : second.levels = first.levels
  trips_eq : (second.guardTrips : Int) = first.guardTrips + ahead

variable {ahead : Int} {first second : Machine}

theorem Alike.isIdle_eq (alike : first.Alike ahead second) : second.isIdle = first.isIdle := by
  rw [isIdle, isIdle, alike.runState_eq, alike.program_eq]

theorem Alike.heard_eq (alike : first.Alike ahead second) (live : Frame) :
    second.heard live = first.heard live := by
  rw [heard, heard, alike.sources_eq]

theorem Alike.verdict (alike : first.Alike ahead second) (live : Frame) :
    Memory.EndAlike (first.verdict live) (second.verdict live) := by
  have bound : (first.bound live).Alike (second.bound live) := by
    refine ⟨?_, alike.filters_eq, OperandStack.alike_clear alike.capacity_eq⟩
    rw [Machine.bound, Machine.bound, alike.ports_eq, alike.table_eq, alike.heard_eq]
  have ends := bound.run first.program.instructions
  rw [Machine.verdict, Machine.verdict, alike.program_eq]
  exact ends

theorem Alike.afterTick (alike : first.Alike ahead second) (live : Frame)
    {firstMemory secondMemory : Memory} (tableEq : secondMemory.table = firstMemory.table)
    (filtersEq : secondMemory.filters = firstMemory.filters)
    (capacityEq : secondMemory.stack.capacity = firstMemory.stack.capacity)
    (firstOutput secondOutput : Frame) (trips : Nat) :
    (first.afterTick live firstMemory firstOutput trips).Alike ahead
      (second.afterTick live secondMemory secondOutput trips) where
  runState_eq := alike.runState_eq
  program_eq := alike.program_eq
  ports_eq := alike.ports_eq
  table_eq := tableEq
  filters_eq := filtersEq
  capacity_eq := capacityEq
  sources_eq := by rw [Machine.afterTick, Machine.afterTick, alike.sources_eq]
  levels_eq := by rw [Machine.afterTick, Machine.afterTick, alike.levels_eq, alike.heard_eq]
  trips_eq := by
    have tripsEq := alike.trips_eq
    simp only [Machine.afterTick]
    omega

/-- Machines that are alike play the same frame. -/
theorem Alike.tick (alike : first.Alike ahead second) (live : Frame) :
    (second.tick live).1 = (first.tick live).1 ∧
      (first.tick live).2.Alike ahead (second.tick live).2 := by
  cases idle : first.isIdle with
  | true =>
      rw [tick_of_idle idle, tick_of_idle (alike.isIdle_eq.trans idle)]
      exact ⟨rfl, { alike with }⟩
  | false =>
      -- the mixed cases cannot be: passes that end alike are completed or aborted together
      have secondActive := alike.isIdle_eq.trans idle
      obtain ⟨endingEq, tableEq, filtersEq, capacityEq⟩ := alike.verdict live
      cases firstEnd : first.verdict live with
      | ok firstMemory =>
          cases secondEnd : second.verdict live with
          | ok secondMemory =>
              rw [firstEnd, secondEnd] at tableEq filtersEq capacityEq
              rw [tick_of_completed idle firstEnd, tick_of_completed secondActive secondEnd]
              refine ⟨?_, alike.afterTick live tableEq filtersEq capacityEq _ _ 0⟩
              have tableEq : secondMemory.table = firstMemory.table := tableEq
              exact congrArg₂ Ports.readOutputs alike.ports_eq tableEq
          | error secondAborted =>
              rw [firstEnd, secondEnd] at endingEq
              cases endingEq
      | error firstAborted =>
          cases secondEnd : second.verdict live with
          | ok secondMemory =>
              rw [firstEnd, secondEnd] at endingEq
              cases endingEq
          | error secondAborted =>
              rw [firstEnd, secondEnd] at tableEq filtersEq capacityEq
              rw [tick_of_aborted idle firstEnd, tick_of_aborted secondActive secondEnd]
              exact ⟨rfl, alike.afterTick live tableEq filtersEq capacityEq _ _ 1⟩

theorem Alike.setSlider (alike : first.Alike ahead second) (index : Nat) (value : Sample) :
    (first.setSlider index value).Alike ahead (second.setSlider index value) := by
  have portEq : second.ports.sliders[index]? = first.ports.sliders[index]? := by
    rw [alike.ports_eq]
  rw [Machine.setSlider, Machine.setSlider, portEq]
  split
  · exact { alike with table_eq := by rw [alike.table_eq] }
  · exact alike

theorem Alike.setSource (alike : first.Alike ahead second) (kind : SourceKind) :
    (first.setSource kind).Alike ahead (second.setSource kind) :=
  { alike with sources_eq := congrArg (·.select kind) alike.sources_eq }

theorem Alike.setFileFrames (alike : first.Alike ahead second) (frames : Array Frame) :
    (first.setFileFrames frames).Alike ahead (second.setFileFrames frames) :=
  { alike with sources_eq := congrArg (·.setFileFrames frames) alike.sources_eq }

theorem Alike.setRunState (alike : first.Alike ahead second) (runState : RunState) :
    (first.setRunState runState).Alike ahead (second.setRunState runState) :=
  { alike with runState_eq := rfl, levels_eq := rfl }

theorem Alike.load (alike : first.Alike ahead second) (patch : Patch) :
    (first.load patch).Alike ahead (second.load patch) :=
  { alike with
    program_eq := rfl, ports_eq := rfl, table_eq := rfl, filters_eq := rfl, levels_eq := rfl }

theorem Alike.decayLevels (alike : first.Alike ahead second) :
    first.decayLevels.Alike ahead second.decayLevels :=
  { alike with levels_eq := congrArg (Frame.map (· * levelDecay)) alike.levels_eq }

theorem Alike.fill (alike : first.Alike ahead second) (input : Array Sample)
    (frames index : Nat) (output : Array Sample) :
    (second.fill input frames index output).1 = (first.fill input frames index output).1 ∧
      (first.fill input frames index output).2.Alike ahead
        (second.fill input frames index output).2 := by
  induction frames generalizing index output first second with
  | zero => exact ⟨rfl, alike⟩
  | succ frames ih =>
      obtain ⟨frameEq, after⟩ := alike.tick (frameAt input index)
      simp only [Machine.fill, frameEq]
      exact ih after (index + 1) _

/-- Once a patch is loaded, only the sources, the run state and the stack's capacity count. -/
theorem alike_load (runStateEq : second.runState = first.runState)
    (sourcesEq : second.sources = first.sources)
    (capacityEq : second.memory.stack.capacity = first.memory.stack.capacity) (patch : Patch) :
    (first.load patch).Alike (second.guardTrips - first.guardTrips) (second.load patch) where
  runState_eq := runStateEq
  program_eq := rfl
  ports_eq := rfl
  table_eq := rfl
  filters_eq := rfl
  -- the stack is cleared, not renewed, so its capacity is the one thing that a load keeps of it
  capacity_eq := capacityEq
  sources_eq := sourcesEq
  levels_eq := rfl
  trips_eq := by
    simp only [load]
    omega

end Machine

/-- Shared machines that are alike, under locks that are both free or both held. -/
structure Core.Alike (ahead : Int) (first second : Core) : Prop where
  machines : first.machine.Alike ahead second.machine
  held_eq : second.held = first.held

theorem Core.Alike.attempt {Result : Type} {ahead : Int} {first second : Core}
    (alike : first.Alike ahead second) (busy : Result) {action : Machine → Result × Machine}
    (acts : ∀ firstMachine secondMachine : Machine, firstMachine.Alike ahead secondMachine →
      (action secondMachine).1 = (action firstMachine).1 ∧
        (action firstMachine).2.Alike ahead (action secondMachine).2) :
    (second.attempt busy action).1 = (first.attempt busy action).1 ∧
      (first.attempt busy action).2.Alike ahead (second.attempt busy action).2 := by
  obtain ⟨firstMachine, firstHeld, _⟩ := first
  obtain ⟨secondMachine, secondHeld, _⟩ := second
  obtain ⟨machines, heldEq⟩ := alike
  cases heldEq
  cases firstHeld with
  | true => exact ⟨rfl, machines, rfl⟩
  | false =>
      obtain ⟨resultEq, after⟩ := acts firstMachine secondMachine machines
      exact ⟨resultEq, after, rfl⟩

namespace VirtualMachine

/-- Virtual machines that are alike, with transports that are both open or both closed. -/
structure Alike (ahead : Int) (first second : VirtualMachine) : Prop where
  cores : first.core.Alike ahead second.core
  isOpen_eq : second.isOpen = first.isOpen

variable {ahead : Int} {first second : VirtualMachine}

theorem Alike.processBlock (alike : first.Alike ahead second) (input : Array Sample)
    (length : Nat) :
    (second.onCore (·.processBlock input length)).1 =
        (first.onCore (·.processBlock input length)).1 ∧
      (first.onCore (·.processBlock input length)).2.Alike ahead
        (second.onCore (·.processBlock input length)).2 := by
  let output : Array Sample := Array.replicate length 0
  have blocks := alike.cores.attempt (Array.replicate output.size 0)
    (fun _ _ machines => machines.decayLevels.fill input ((output.size + 1) / 2) 0 output)
  exact ⟨blocks.1, blocks.2, alike.isOpen_eq⟩

theorem Alike.setRunState (alike : first.Alike ahead second) (runState : RunState)
    (isOpen : Bool) :
    Alike ahead ⟨first.core.setRunState runState, isOpen⟩
      ⟨second.core.setRunState runState, isOpen⟩ :=
  ⟨⟨alike.cores.machines.setRunState runState, alike.cores.held_eq⟩, rfl⟩

theorem Alike.start (alike : first.Alike ahead second)
    (opened : Except TransportError Unit) :
    (second.start opened).1 = (first.start opened).1 ∧
      (first.start opened).2.Alike ahead (second.start opened).2 := by
  have closed : (if first.isOpen then first.stop else first).Alike ahead
      (if second.isOpen then second.stop else second) := by
    rw [alike.isOpen_eq]
    split
    · exact alike.setRunState .stopped false
    · exact alike
  cases opened with
  | ok => exact ⟨rfl, closed.setRunState .running true⟩
  | error => exact ⟨rfl, closed⟩

/-- Virtual machines that are alike answer alike, and stay alike. -/
theorem Alike.perform (alike : first.Alike ahead second) (operation : Operation) :
    second.answer operation = first.answer operation ∧
      (first.perform operation).Alike ahead (second.perform operation) := by
  obtain ⟨⟨machines, heldEq⟩, isOpenEq⟩ := alike
  have alike : first.Alike ahead second := ⟨⟨machines, heldEq⟩, isOpenEq⟩
  cases operation with
  | tick live =>
      obtain ⟨frameEq, cores⟩ :=
        alike.cores.attempt .silence (fun _ _ machines => machines.tick live)
      exact ⟨congrArg Answer.frame frameEq, cores, isOpenEq⟩
  | block input length =>
      obtain ⟨samplesEq, after⟩ := alike.processBlock input length
      exact ⟨congrArg Answer.samples samplesEq, after⟩
  | pull input length =>
      obtain ⟨samplesEq, after⟩ := alike.processBlock input length
      simp only [answer, VirtualMachine.perform, VirtualMachine.pull, isOpenEq]
      split
      · exact ⟨congrArg Answer.samples samplesEq, after⟩
      · exact ⟨rfl, alike⟩
  | start opened =>
      obtain ⟨resultEq, after⟩ := alike.start opened
      exact ⟨congrArg Answer.opening resultEq, after⟩
  | stop => exact ⟨rfl, alike.setRunState .stopped false⟩
  | load patch => exact ⟨rfl, ⟨machines.load patch, heldEq⟩, isOpenEq⟩
  | setSlider index value => exact ⟨rfl, ⟨machines.setSlider index value, heldEq⟩, isOpenEq⟩
  | setSource kind => exact ⟨rfl, ⟨machines.setSource kind, heldEq⟩, isOpenEq⟩
  | setFileFrames frames => exact ⟨rfl, ⟨machines.setFileFrames frames, heldEq⟩, isOpenEq⟩
  | acquire | release | poison => exact ⟨rfl, ⟨machines, rfl⟩, isOpenEq⟩

/-- What can be seen of a machine behind an operation. -/
structure Observation where
  answer : Answer
  runState : RunState
  table : VariableTable
  levels : Frame
  listing : String
  /-- How many ticks were aborted since the operation began. -/
  trips : Int

def observation (virtual : VirtualMachine) (operation : Operation) : Observation :=
  let machine := (virtual.perform operation).core.machine
  ⟨virtual.answer operation, machine.runState, machine.table, machine.levels,
    machine.disassemble, machine.guardTrips - virtual.core.machine.guardTrips⟩

/-- What is seen of a machine with every operation of a run. -/
def observe : VirtualMachine → List Operation → List Observation
  | _, [] => []
  | virtual, operation :: others =>
      virtual.observation operation :: observe (virtual.perform operation) others

/-- Operations that are answered alike and leave machines alike look alike. -/
theorem observation_eq {operation : Operation}
    (answerEq : second.answer operation = first.answer operation)
    (tripsEq : (second.core.machine.guardTrips : Int) = first.core.machine.guardTrips + ahead)
    (alike : (first.perform operation).Alike ahead (second.perform operation)) :
    second.observation operation = first.observation operation := by
  have machines := alike.cores.machines
  have tripsAfter := machines.trips_eq
  simp only [observation, answerEq, machines.runState_eq, machines.levels_eq, Machine.table,
    Machine.disassemble, machines.table_eq, machines.program_eq, Observation.mk.injEq, true_and]
  omega

theorem Alike.observe (alike : first.Alike ahead second) (operations : List Operation) :
    second.observe operations = first.observe operations := by
  induction operations generalizing first second with
  | nil => rfl
  | cons operation others ih =>
      obtain ⟨answerEq, after⟩ := alike.perform operation
      have tripsEq := alike.cores.machines.trips_eq
      rw [VirtualMachine.observe, VirtualMachine.observe,
        observation_eq answerEq tripsEq after, ih after]

/--
Nothing shows what was loaded before.  Where two machines have stacks of the same
capacity, and stand at the same run state and with the same sources, whatever
was done with them since they were created, a load of the same patch and all that
is done after it looks the same on both.  A load takes the lock, and so finds it
in the same state on both.
-/
theorem observe_load_eq {firstConfig secondConfig : EngineConfig}
    {firstHistory secondHistory : List Operation} {first second : VirtualMachine}
    (firstReached : (create firstConfig).performAll firstHistory = first)
    (secondReached : (create secondConfig).performAll secondHistory = second)
    (capacityEq : second.core.machine.memory.stack.capacity =
      first.core.machine.memory.stack.capacity)
    (runStateEq : second.core.machine.runState = first.core.machine.runState)
    (sourcesEq : second.core.machine.sources = first.core.machine.sources)
    (heldEq : second.core.held = first.core.held) (patch : Patch)
    (operations : List Operation) :
    second.observe (.load patch :: operations) = first.observe (.load patch :: operations) := by
  -- transports are not compared by assumption: the run states tell whether they are open
  have firstInStep : first.InStep := firstReached ▸ (inStep_create firstConfig).performAll _
  have secondInStep : second.InStep := secondReached ▸ (inStep_create secondConfig).performAll _
  have isOpenEq : second.isOpen = first.isOpen := by
    rw [firstInStep, secondInStep, isRunning, isRunning, runStateEq]
  have alike : (first.perform (.load patch)).Alike
      (second.core.machine.guardTrips - first.core.machine.guardTrips)
      (second.perform (.load patch)) :=
    ⟨⟨Machine.alike_load runStateEq sourcesEq capacityEq patch, heldEq⟩, isOpenEq⟩
  have tripsEq : (second.core.machine.guardTrips : Int) = first.core.machine.guardTrips +
      (second.core.machine.guardTrips - first.core.machine.guardTrips) := by omega
  have seenEq : second.observation (.load patch) = first.observation (.load patch) :=
    observation_eq rfl tripsEq alike
  rw [observe, observe, seenEq, alike.observe]

/-- A new machine, and one on which an aborted tick has left values in the cells. -/
theorem observe_load_after_abort :
    let first := (create Machine.twoCells).performAll
      [.load Machine.overflowingCounter, .start (.ok ()), .tick .silence, .stop]
    let second := create Machine.twoCells
    first.core.machine.guardTrips = 1 ∧
      first.core.machine.memory.stack.cells ≠ second.core.machine.memory.stack.cells ∧
      ∀ patch operations,
        second.observe (.load patch :: operations) =
          first.observe (.load patch :: operations) := by
  intro first second
  refine ⟨by decide +kernel, by decide +kernel, ?_⟩
  intro patch operations
  have firstReached : (create Machine.twoCells).performAll
      [.load Machine.overflowingCounter, .start (.ok ()), .tick .silence, .stop] = first := rfl
  have secondReached : (create Machine.twoCells).performAll [] = second := rfl
  exact observe_load_eq firstReached secondReached (by decide +kernel) (by decide +kernel) rfl
    (by decide +kernel) patch operations

end VirtualMachine

end SignalPatch
