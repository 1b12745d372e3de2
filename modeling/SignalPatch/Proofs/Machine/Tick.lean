import SignalPatch.Proofs.Machine.Height
import SignalPatch.Proofs.Machine.History

/-!
# Ticks

A tick of a machine that is not idle binds an input frame and passes over the
program.  It plays what the pass left in the outputs, or, if the pass was
aborted, silence, and counts that.
-/

namespace SignalPatch

namespace Machine

/-- The input frame of the next tick, where the sound card delivers `live`. -/
def heard (machine : Machine) (live : Frame) : Frame :=
  (machine.sources.next live).1

/-- The memory that the next pass starts from: the input is bound and the stack is empty. -/
def bound (machine : Machine) (live : Frame) : Memory :=
  ⟨machine.ports.bindInputs machine.memory.table (machine.heard live),
    machine.memory.filters, machine.memory.stack.clear⟩

def verdict (machine : Machine) (live : Frame) : Except Aborted Memory :=
  Memory.run machine.program.instructions (machine.bound live)

/-- What a tick leaves where its pass leaves a memory and it plays a frame. -/
def afterTick (machine : Machine) (live : Frame) (memory : Memory) (output : Frame)
    (trips : Nat) : Machine where
  runState := machine.runState
  program := machine.program
  ports := machine.ports
  memory := memory
  sources := (machine.sources.next live).2
  telemetry := machine.telemetry.push output
  levels := machine.levels.raise (machine.heard live)
  guardTrips := machine.guardTrips + trips

theorem tick_of_idle {machine : Machine} (idle : machine.isIdle = true) (live : Frame) :
    machine.tick live =
      (.silence, { machine with telemetry := machine.telemetry.push .silence }) :=
  if_pos idle

theorem tick_of_completed {machine : Machine} {live : Frame} {memory : Memory}
    (active : machine.isIdle = false) (completed : machine.verdict live = .ok memory) :
    machine.tick live =
      (machine.ports.readOutputs memory.table,
        machine.afterTick live memory (machine.ports.readOutputs memory.table) 0) := by
  simp only [verdict, bound, heard] at completed
  simp only [tick, active, Bool.false_eq_true, ↓reduceIte, Memory.pass, completed]
  rfl

theorem tick_of_aborted {machine : Machine} {live : Frame} {aborted : Aborted}
    (active : machine.isIdle = false) (failed : machine.verdict live = .error aborted) :
    machine.tick live =
      (.silence, machine.afterTick live aborted.left .silence 1) := by
  simp only [verdict, bound, heard] at failed
  simp only [tick, active, Bool.false_eq_true, ↓reduceIte, Memory.pass, failed]
  rfl

theorem isIdle_eq_false_iff {machine : Machine} :
    machine.isIdle = false ↔
      machine.runState = .running ∧ machine.program.isEmpty = false := by
  obtain ⟨runState, _⟩ := machine
  cases runState <;> simp [isIdle]

structure Runs (machine : Machine) (program : Program) : Prop where
  running : machine.runState = .running
  loaded : machine.program = program

def started (config : EngineConfig) (patch : Patch) : Machine :=
  ((create config).load patch).setRunState .running

theorem reachable_started (config : EngineConfig) (patch : Patch) :
    Reachable config (started config patch) :=
  ⟨[.load patch, .start (.ok ())], rfl⟩

theorem runs_started (config : EngineConfig) (patch : Patch) :
    (started config patch).Runs patch.program :=
  ⟨rfl, rfl⟩

/-- Why the guard aborts the next tick, if it does. -/
def abort? (machine : Machine) (live : Frame) : Option Guard :=
  if machine.isIdle then none
  else match machine.verdict live with
    | .ok _ => none
    | .error aborted => some aborted.guard

theorem tick_of_abort {machine : Machine} {live : Frame} {guard : Guard}
    (aborts : machine.abort? live = some guard) :
    (machine.tick live).1 = .silence ∧
      (machine.tick live).2.guardTrips = machine.guardTrips + 1 := by
  unfold abort? at aborts
  split at aborts
  · cases aborts
  · rename_i active
    split at aborts
    · cases aborts
    · rename_i aborted failed
      rw [tick_of_aborted (Bool.eq_false_iff.mpr active) failed]
      exact ⟨rfl, rfl⟩

theorem tick_of_no_abort {machine : Machine} {live : Frame}
    (goes : machine.abort? live = none) :
    (machine.tick live).2.guardTrips = machine.guardTrips := by
  unfold abort? at goes
  split at goes
  · rename_i idle
    rw [tick_of_idle idle]
  · rename_i active
    split at goes
    · rename_i memory completed
      rw [tick_of_completed (Bool.eq_false_iff.mpr active) completed]
      rfl
    · cases goes

end Machine

namespace Ports

theorem names_assign (table : VariableTable) (port : Option Nat) (value : Sample) :
    (assign table port value).names = table.names := by
  cases port with
  | none => rfl
  | some slot => exact VariableTable.names_set table slot value

@[simp]
theorem names_bindInputs (ports : Ports) (table : VariableTable) (frame : Frame) :
    (ports.bindInputs table frame).names = table.names := by
  simp only [bindInputs, names_assign]

end Ports

namespace Machine

theorem verdict_layout (machine : Machine) (live : Frame) :
    Memory.SameLayout machine.memory (Memory.behind (machine.verdict live)) := by
  obtain ⟨_, layout⟩ := Memory.run_spec machine.program.instructions (machine.bound live)
  refine ⟨layout.names_eq.trans ?_, layout.sites_eq, layout.capacity_eq⟩
  exact Ports.names_bindInputs _ _ _

/-- The memory behind a tick is the one before it, or the one that the pass left. -/
theorem memory_tick (machine : Machine) (live : Frame) :
    (machine.tick live).2.memory =
      if machine.isIdle then machine.memory else Memory.behind (machine.verdict live) := by
  cases idle : machine.isIdle with
  | true => rw [tick_of_idle idle]; rfl
  | false =>
      cases verdictEq : machine.verdict live with
      | ok memory => rw [tick_of_completed idle verdictEq]; rfl
      | error aborted => rw [tick_of_aborted idle verdictEq]; rfl

theorem tick_keeps (machine : Machine) (live : Frame) :
    (machine.tick live).2.program = machine.program ∧
      (machine.tick live).2.ports = machine.ports ∧
      (machine.tick live).2.runState = machine.runState := by
  cases idle : machine.isIdle with
  | true =>
      rw [tick_of_idle idle]
      exact ⟨rfl, rfl, rfl⟩
  | false =>
      cases verdictEq : machine.verdict live with
      | ok memory =>
          rw [tick_of_completed idle verdictEq]
          exact ⟨rfl, rfl, rfl⟩
      | error aborted =>
          rw [tick_of_aborted idle verdictEq]
          exact ⟨rfl, rfl, rfl⟩

/-- The stack has its capacity, and there are as many sites as the program asks for. -/
structure Fitted (capacity : Nat) (machine : Machine) : Prop where
  capacity_eq : machine.memory.stack.capacity = capacity
  sites_eq : machine.memory.filters.size = machine.program.filterSites

theorem fitted_create (config : EngineConfig) :
    Fitted (max config.stackCapacity 1) (create config) :=
  ⟨rfl, rfl⟩

theorem layout_tick (machine : Machine) (live : Frame) :
    Memory.SameLayout machine.memory (machine.tick live).2.memory := by
  rw [memory_tick]
  split
  · exact Memory.SameLayout.refl _
  · exact machine.verdict_layout live

theorem Fitted.tick {capacity : Nat} {machine : Machine} (fitted : Fitted capacity machine)
    (live : Frame) : Fitted capacity (machine.tick live).2 := by
  have layout := machine.layout_tick live
  refine ⟨layout.capacity_eq.trans fitted.capacity_eq, ?_⟩
  rw [(tick_keeps machine live).1]
  exact layout.sites_eq.trans fitted.sites_eq

theorem Fitted.react {capacity : Nat} {machine : Machine} (fitted : Fitted capacity machine)
    (event : Event) : Fitted capacity (machine.react event) := by
  obtain ⟨capacityEq, sitesEq⟩ := fitted
  cases event with
  | load patch => exact ⟨capacityEq, by simp [Machine.react, load, FilterBank.withSites,
      FilterBank.size]⟩
  | tick live => exact Fitted.tick ⟨capacityEq, sitesEq⟩ live
  | setSlider index value =>
      simp only [Machine.react, setSlider]
      split
      · exact ⟨capacityEq, sitesEq⟩
      · exact ⟨capacityEq, sitesEq⟩
  | decayLevels | setSource kind | setFileFrames frames | setRunState runState =>
      exact ⟨capacityEq, sitesEq⟩

theorem Reachable.fitted {config : EngineConfig} {machine : Machine}
    (reachable : Reachable config machine) : Fitted (max config.stackCapacity 1) machine :=
  reachable.invariant (fitted_create config) (fun _ event fitted => fitted.react event)

end Machine

end SignalPatch
