import SignalPatch.Proofs.Machine.PlainCells
import SignalPatch.Proofs.Machine.Tick

/-!
# What stops a pass

A program may be any list of instructions, also one that takes from an empty stack, calls
filters that do not exist or names slots that nothing has.  Whether its ticks are aborted, at
which instruction and why, is decided by the program and the capacity of the stack; values,
inputs, filter memories and cells that are left over have no say in it.
-/

namespace SignalPatch

/-- The index of the first instruction that cannot be executed, and what stops it. -/
def stopOf {State Reason : Type} (step : State → Instruction → Except Reason State) :
    List Instruction → State → Option (Nat × Reason)
  | [], _ => none
  | instruction :: others, state =>
      match step state instruction with
      | .error reason => some (0, reason)
      | .ok next => (stopOf step others next).map (fun (index, reason) => (index + 1, reason))

/-- Where and why the instructions of a program stop on an empty stack of a capacity. -/
def Program.stop? (capacity : Nat) (program : Program) : Option (Nat × Guard) :=
  stopOf (fun height instruction => instruction.height capacity program.filterSites height)
    program.instructions 0

namespace Memory

/-- Where and why a run stops. -/
def stop? (memory : Memory) (code : List Instruction) : Option (Nat × Aborted) :=
  stopOf step code memory

theorem run_of_stop?_none {code : List Instruction} {memory : Memory}
    (goes : memory.stop? code = none) : ∃ after, run code memory = .ok after := by
  induction code generalizing memory with
  | nil => exact ⟨memory, rfl⟩
  | cons instruction others ih =>
      simp only [stop?, stopOf] at goes
      simp only [run]
      cases stepped : memory.step instruction with
      | error aborted => simp [stepped] at goes
      | ok next =>
          simp only [stepped, Option.map_eq_none_iff] at goes
          exact ih goes

theorem run_of_stop?_some {code : List Instruction} {memory : Memory} {index : Nat}
    {aborted : Aborted} (stops : memory.stop? code = some (index, aborted)) :
    (∃ instruction middle, code[index]? = some instruction ∧
      run (code.take index) memory = .ok middle ∧
      middle.step instruction = .error aborted) ∧
    run code memory = .error aborted := by
  induction code generalizing memory index with
  | nil => cases stops
  | cons instruction others ih =>
      simp only [stop?, stopOf] at stops
      simp only [run]
      cases stepped : memory.step instruction with
      | error failed =>
          simp only [stepped, Option.some.injEq, Prod.mk.injEq] at stops
          obtain ⟨rfl, rfl⟩ := stops
          exact ⟨⟨instruction, memory, rfl, rfl, stepped⟩, rfl⟩
      | ok next =>
          simp only [stepped] at stops
          obtain ⟨⟨later, reason⟩, laterStops, sameEq⟩ := Option.map_eq_some_iff.mp stops
          cases sameEq
          obtain ⟨⟨failing, middle, failingEq, ranEq, failedEq⟩, runEq⟩ := ih laterStops
          refine ⟨⟨failing, middle, failingEq, ?_, failedEq⟩, runEq⟩
          simp only [List.take_succ_cons, run, stepped]
          exact ranEq

/-- Heights decide where and why a run stops, whatever the values are. -/
theorem map_guard_stop? (code : List Instruction) (memory : Memory) :
    (memory.stop? code).map (Prod.map id Aborted.guard) =
      stopOf (fun height instruction =>
        instruction.height memory.stack.capacity memory.filters.size height)
        code memory.stack.size := by
  induction code generalizing memory with
  | nil => rfl
  | cons instruction others ih =>
      obtain ⟨endingEq, layout⟩ := step_spec memory instruction
      simp only [stop?, stopOf, ← endingEq]
      cases stepped : memory.step instruction with
      | error aborted => rfl
      | ok next =>
          rw [stepped] at layout
          have nextLayout : SameLayout memory next := layout
          have rest := ih next
          rw [nextLayout.capacity_eq, nextLayout.sites_eq] at rest
          simp only [ending, ← rest, Option.map_map]
          rfl

/-- A slot that does not exist reads as zero, and what is written to it is lost. -/
theorem step_unknown_slot {memory : Memory} {slot : Nat} (unknown : memory.table.size ≤ slot) :
    memory.step (.read slot) = memory.step (.load 0) ∧
      memory.step (.write slot) = memory.step (.operate .discard) := by
  obtain ⟨table, filters, stack⟩ := memory
  have readsZero : table.get? slot = none := by
    rw [VariableStore.get?, Array.getElem?_eq_none unknown, Option.map_none]
  have keeps : ∀ value, table.set slot value = table := by
    intro value
    apply VariableTable.ext_entries
    have outside : table.entries.length ≤ slot := unknown
    rw [VariableTable.entries_set, List.modify_eq_self outside]
  refine ⟨?_, ?_⟩
  · simp only [step, readsZero, Option.getD_none]
  · simp only [step, Opcode.apply, keeps]
    cases stack.pop with
    | error failure => rfl
    | ok result => rfl

end Memory

namespace Machine

/--
Whether a tick of a machine with a program of any instructions is aborted, at which of them
and why, is what the program and the capacity of the stack say.  A tick that goes through
plays what its pass left in the outputs; an aborted one is silent and counted, and the
instructions before the one that failed were completed.  On the way the stack never outgrows
its capacity, and no cell outside it is asked for, whatever was left over in the cells.  A slot
that does not exist reads as zero, and what is written to it is lost.
-/
theorem stop_decided_by_code {code : List Instruction} (nonempty : code ≠ [])
    {config : EngineConfig} {machine : Machine} (reachable : Reachable config machine)
    (runs : machine.Runs (.ofInstructions code)) (live : Frame) :
    let capacity := max config.stackCapacity 1
    (match (Program.ofInstructions code).stop? capacity with
      | none => ∃ memory, machine.verdict live = .ok memory ∧
          machine.tick live = (machine.ports.readOutputs memory.table,
            machine.afterTick live memory (machine.ports.readOutputs memory.table) 0)
      | some (index, guard) => ∃ instruction middle left,
          code[index]? = some instruction ∧
          Memory.run (code.take index) (machine.bound live) = .ok middle ∧
          middle.step instruction = .error ⟨guard, left⟩ ∧
          machine.tick live = (.silence, machine.afterTick live left .silence 1)) ∧
      (∀ count, (Memory.behind
        (Memory.run (code.take count) (machine.bound live))).stack.size ≤ capacity) ∧
      (∀ cells : List Sample, cells.length = capacity →
        let tried := PlainMemory.run code
          ⟨(machine.bound live).table, (machine.bound live).filters, ⟨cells, 0⟩⟩
        tried ≠ none ∧ PlainMemory.Meets tried (machine.verdict live)) ∧
      (∀ (memory : Memory) (slot : Nat), memory.table.size ≤ slot →
        memory.step (.read slot) = memory.step (.load 0) ∧
          memory.step (.write slot) = memory.step (.operate .discard)) := by
  intro capacity
  obtain ⟨capacityEq, sitesEq⟩ := reachable.fitted
  obtain ⟨running, loaded⟩ := runs
  have verdictEq : machine.verdict live = Memory.run code (machine.bound live) := by
    rw [verdict, loaded]
    rfl
  have active : machine.isIdle = false := by
    refine isIdle_eq_false_iff.mpr ⟨running, ?_⟩
    rw [loaded]
    exact List.isEmpty_eq_false_iff.mpr nonempty
  have boundCapacity : (machine.bound live).stack.capacity = capacity := capacityEq
  have stopEq : (Program.ofInstructions code).stop? capacity =
      ((machine.bound live).stop? code).map (Prod.map id Aborted.guard) := by
    rw [loaded] at sitesEq
    rw [Memory.map_guard_stop?, boundCapacity]
    exact congrArg (fun sites => stopOf (fun height instruction =>
      instruction.height capacity sites height) code 0) sitesEq.symm
  refine ⟨?_, ?_, ?_, fun _ _ => Memory.step_unknown_slot⟩
  · rw [stopEq]
    cases stops : (machine.bound live).stop? code with
    | none =>
        obtain ⟨memory, completed⟩ := Memory.run_of_stop?_none stops
        rw [← verdictEq] at completed
        exact ⟨memory, completed, tick_of_completed active completed⟩
    | some stop =>
        obtain ⟨index, guard, left⟩ := stop
        obtain ⟨⟨instruction, middle, atIndex, completed, stepped⟩, failed⟩ :=
          Memory.run_of_stop?_some stops
        rw [← verdictEq] at failed
        exact ⟨instruction, middle, left, atIndex, completed, stepped,
          tick_of_aborted active failed⟩
  · intro count
    rw [← boundCapacity, ← (Memory.run_spec (code.take count) (machine.bound live)).2.capacity_eq]
    exact OperandStack.size_le_capacity _
  · intro cells lengthEq
    have shows : PlainMemory.Shows
        ⟨(machine.bound live).table, (machine.bound live).filters, ⟨cells, 0⟩⟩
        (machine.bound live) :=
      ⟨rfl, rfl, PlainStack.shows_clear (lengthEq.trans capacityEq.symm)⟩
    have meets := shows.run code
    rw [← verdictEq] at meets
    exact ⟨meets.ne_none, meets⟩

/-- A sum of a single operand, in front of a filter without arguments that is never reached. -/
theorem stop_decided_by_code_loneOperand :
    let code : List Instruction := [.load 1, .operate .add, .filter .fir 0 0]
    let machine := started .standard ⟨.ofInstructions code, .empty⟩
    code ≠ [] ∧ Reachable .standard machine ∧ machine.Runs (.ofInstructions code) ∧
      (Program.ofInstructions code).stop? 2048 = some (1, .stack .underflow) ∧
      ∀ live, ∃ left, machine.tick live = (.silence, machine.afterTick live left .silence 1) := by
  intro code machine
  have nonempty : code ≠ [] := List.cons_ne_nil _ _
  have reachable : Reachable .standard machine := reachable_started _ _
  have runs : machine.Runs (.ofInstructions code) := runs_started _ _
  have stopEq : (Program.ofInstructions code).stop? (max EngineConfig.standard.stackCapacity 1) =
      some (1, .stack .underflow) := by decide +kernel
  refine ⟨nonempty, reachable, runs, stopEq, ?_⟩
  intro live
  obtain ⟨stopped, _⟩ := stop_decided_by_code nonempty reachable runs live
  rw [stopEq] at stopped
  obtain ⟨_, _, left, _, _, _, tickEq⟩ := stopped
  exact ⟨left, tickEq⟩

end Machine

end SignalPatch
