import SignalPatch.Proofs.Machine.LoadedPatch

/-!
# No run looks at a name

Once a patch is loaded, its variables are known by their slots.  A machine whose
variables are called otherwise answers all that it is asked as before, and goes on with
the same variables under the other names.
-/

namespace SignalPatch

variable (rename : String → String)

/-- The same value under another name. -/
def Variable.renamed (entry : Variable) : Variable :=
  ⟨rename entry.name, entry.value⟩

namespace VariableTable

/-- The table in which every variable is called otherwise, as long as the new names differ. -/
def renamed (table : VariableTable) : VariableTable :=
  if (table.names.map rename).Nodup then ofEntries (table.entries.map (Variable.renamed rename))
  else table

theorem entries_renamed {table : VariableTable} (distinct : (table.names.map rename).Nodup) :
    (table.renamed rename).entries = table.entries.map (Variable.renamed rename) := by
  rw [renamed, if_pos distinct]
  apply entries_ofEntries
  rw [List.map_map]
  rw [VariableStore.names, List.map_map] at distinct
  exact distinct

theorem names_renamed {table : VariableTable} (distinct : (table.names.map rename).Nodup) :
    (table.renamed rename).names = table.names.map rename := by
  rw [VariableStore.names, entries_renamed rename distinct, VariableStore.names, List.map_map,
    List.map_map]
  rfl

theorem renamed_id (table : VariableTable) : table.renamed id = table := by
  have distinct : (table.names.map id).Nodup := (List.map_id _).symm ▸ table.nodup_names
  apply ext_entries
  rw [entries_renamed id distinct]
  exact List.map_id _

@[simp]
theorem get?_renamed (table : VariableTable) (slot : Nat) :
    (table.renamed rename).get? slot = table.get? slot := by
  by_cases distinct : (table.names.map rename).Nodup
  · rw [VariableStore.get?_eq_entries_getElem?, VariableStore.get?_eq_entries_getElem?,
      entries_renamed rename distinct, List.getElem?_map, Option.map_map]
    rfl
  · rw [renamed, if_neg distinct]

theorem set_renamed (table : VariableTable) (slot : Nat) (value : Sample) :
    (table.renamed rename).set slot value = (table.set slot value).renamed rename := by
  have namesEq := table.names_set slot value
  by_cases distinct : (table.names.map rename).Nodup
  · apply ext_entries
    rw [entries_renamed rename (namesEq ▸ distinct), entries_set, entries_set,
      entries_renamed rename distinct]
    apply List.ext_getElem?
    intro index
    simp only [List.getElem?_modify, List.getElem?_map]
    by_cases here : slot = index
    · simp [here, Function.comp_def, Variable.renamed]
    · simp [here]
  · rw [renamed, renamed, if_neg distinct, namesEq, if_neg distinct]

end VariableTable

namespace Memory

def renamed : Memory → Memory
  | ⟨table, filters, stack⟩ => ⟨table.renamed rename, filters, stack⟩

/-- The outcome of a pass over a memory whose variables are called otherwise. -/
def renamedOutcome : Except Aborted Memory → Except Aborted Memory
  | .ok memory => .ok (memory.renamed rename)
  | .error ⟨guard, left⟩ => .error ⟨guard, left.renamed rename⟩

theorem afterStack_renamed (table : VariableTable) (filters : FilterBank)
    (outcome : Except StackFailure OperandStack) :
    afterStack (table.renamed rename) filters outcome =
      renamedOutcome rename (afterStack table filters outcome) := by
  cases outcome <;> rfl

theorem step_renamed (memory : Memory) (instruction : Instruction) :
    (memory.renamed rename).step instruction =
      renamedOutcome rename (memory.step instruction) := by
  obtain ⟨table, filters, stack⟩ := memory
  cases instruction with
  | operate | load => exact afterStack_renamed rename table filters _
  | read slot =>
      rw [renamed, step, VariableTable.get?_renamed]
      exact afterStack_renamed rename table filters _
  | write slot =>
      simp only [renamed, step, VariableTable.set_renamed]
      split
      · rfl
      · rfl
  | filter kind count site =>
      simp only [renamed, step]
      split
      · rfl
      · split
        · rfl
        · exact afterStack_renamed rename table _ _

theorem run_renamed (code : List Instruction) (memory : Memory) :
    run code (memory.renamed rename) = renamedOutcome rename (run code memory) := by
  induction code generalizing memory with
  | nil => rfl
  | cons instruction others ih =>
      rw [run, run, step_renamed]
      cases memory.step instruction with
      | ok next => exact ih next
      | error aborted => rfl

end Memory

namespace Ports

theorem bindInputs_renamed (ports : Ports) (table : VariableTable) (frame : Frame) :
    ports.bindInputs (table.renamed rename) frame =
      (ports.bindInputs table frame).renamed rename := by
  have assignEq : ∀ (table : VariableTable) (port : Option Nat) (value : Sample),
      assign (table.renamed rename) port value = (assign table port value).renamed rename := by
    intro table port value
    cases port with
    | none => rfl
    | some slot => exact table.set_renamed rename slot value
  simp only [bindInputs, assignEq]

theorem readOutputs_renamed (ports : Ports) (table : VariableTable) :
    ports.readOutputs (table.renamed rename) = ports.readOutputs table := by
  have readEq : (table.renamed rename).get? = table.get? :=
    funext (table.get?_renamed rename)
  simp only [readOutputs, fetch, readEq]

end Ports

namespace Machine

/-- The machine whose variables are called otherwise. -/
def renamed (machine : Machine) : Machine :=
  { machine with memory := machine.memory.renamed rename }

theorem renamed_id (machine : Machine) : machine.renamed id = machine := by
  rw [renamed, Memory.renamed, VariableTable.renamed_id]

theorem verdict_renamed (machine : Machine) (live : Frame) :
    (machine.renamed rename).verdict live =
      Memory.renamedOutcome rename (machine.verdict live) := by
  have boundEq : (machine.renamed rename).bound live =
      (machine.bound live).renamed rename := by
    rw [bound, bound, Memory.renamed, ← Ports.bindInputs_renamed]
    rfl
  rw [verdict, verdict, boundEq, ← Memory.run_renamed]
  rfl

/-- A change that makes the same of a machine under any names, apart from the names. -/
def NameBlind {Result : Type} (action : Machine → Result × Machine) : Prop :=
  ∀ machine, action (machine.renamed rename) =
    ((action machine).1, (action machine).2.renamed rename)

theorem nameBlind_tick (live : Frame) : NameBlind rename (·.tick live) := by
  intro machine
  cases idle : machine.isIdle with
  | true =>
      have otherIdle : (machine.renamed rename).isIdle = true := idle
      simp only [tick_of_idle idle, tick_of_idle otherIdle]
      rfl
  | false =>
      have otherActive : (machine.renamed rename).isIdle = false := idle
      have otherVerdict := machine.verdict_renamed rename live
      cases verdictEq : machine.verdict live with
      | ok memory =>
          rw [verdictEq] at otherVerdict
          have outputEq := machine.ports.readOutputs_renamed rename memory.table
          simp only [tick_of_completed idle verdictEq, tick_of_completed otherActive otherVerdict]
          change (machine.ports.readOutputs (memory.table.renamed rename),
            (machine.renamed rename).afterTick live (memory.renamed rename)
              (machine.ports.readOutputs (memory.table.renamed rename)) 0) = _
          rw [outputEq]
          rfl
      | error aborted =>
          rw [verdictEq] at otherVerdict
          simp only [tick_of_aborted idle verdictEq, tick_of_aborted otherActive otherVerdict]
          rfl

theorem nameBlind_fill (input : Array Sample) (frames index : Nat) (output : Array Sample) :
    NameBlind rename (fill input frames index output) := by
  intro machine
  induction frames generalizing index output machine with
  | zero => rfl
  | succ frames ih =>
      have tickEq := nameBlind_tick rename (frameAt input index) machine
      dsimp only at tickEq
      simp only [fill, tickEq]
      exact ih (index + 1) _ _

theorem nameBlind_processInto (input output : Array Sample) :
    NameBlind rename (·.processInto input output) :=
  fun machine => nameBlind_fill rename input _ 0 output machine.decayLevels

theorem setSlider_renamed (machine : Machine) (index : Nat) (value : Sample) :
    (machine.renamed rename).setSlider index value =
      (machine.setSlider index value).renamed rename := by
  obtain ⟨runState, program, ports, ⟨table, filters, stack⟩, _⟩ := machine
  simp only [renamed, Memory.renamed, setSlider, VariableTable.set_renamed]
  split
  · rfl
  · rfl

end Machine

namespace Core

def renamed : Core → Core
  | ⟨machine, held, poisoned⟩ => ⟨machine.renamed rename, held, poisoned⟩

theorem attempt_renamed {Result : Type} (busy : Result) {action : Machine → Result × Machine}
    (blind : Machine.NameBlind rename action) (core : Core) :
    (core.renamed rename).attempt busy action =
      ((core.attempt busy action).1, (core.attempt busy action).2.renamed rename) := by
  obtain ⟨machine, held, poisoned⟩ := core
  cases held with
  | true => rfl
  | false => simp [renamed, attempt, blind machine]

theorem processBlock_renamed (input : Array Sample) (length : Nat) (core : Core) :
    (core.renamed rename).processBlock input length =
      ((core.processBlock input length).1, (core.processBlock input length).2.renamed rename) :=
  attempt_renamed rename _ (Machine.nameBlind_processInto rename input _) core

end Core

/-- The names behind an operation: a load brings names of its own. -/
def Operation.namesBehind (operation : Operation) : String → String :=
  if operation.loaded?.isSome then id else rename

theorem Operation.foldl_namesBehind {operations : List Operation}
    (loadNothing : ∀ operation ∈ operations, operation.loaded? = none) :
    operations.foldl (fun rename operation => operation.namesBehind rename) rename = rename := by
  induction operations with
  | nil => rfl
  | cons operation others ih =>
      have kept : operation.namesBehind rename = rename := by
        simp [namesBehind, loadNothing operation (List.mem_cons_self ..)]
      rw [List.foldl_cons, kept]
      exact ih (fun other member => loadNothing other (List.mem_cons_of_mem _ member))

namespace VirtualMachine

def renamed : VirtualMachine → VirtualMachine
  | ⟨core, isOpen⟩ => ⟨core.renamed rename, isOpen⟩

theorem renamed_id (virtual : VirtualMachine) : virtual.renamed id = virtual := by
  obtain ⟨⟨machine, held, poisoned⟩, isOpen⟩ := virtual
  rw [renamed, Core.renamed, Machine.renamed_id]

/-- What a virtual machine answers to one operation after the other. -/
def answers : VirtualMachine → List Operation → List Answer
  | _, [] => []
  | virtual, operation :: others =>
      virtual.answer operation :: answers (virtual.perform operation) others

theorem onCore_renamed {Result : Type} {action : Core → Result × Core}
    (blind : ∀ core, action (core.renamed rename) =
      ((action core).1, (action core).2.renamed rename)) (virtual : VirtualMachine) :
    (virtual.renamed rename).onCore action =
      ((virtual.onCore action).1, (virtual.onCore action).2.renamed rename) := by
  obtain ⟨core, isOpen⟩ := virtual
  simp [renamed, onCore, blind core]

/-- An operation is answered the same under any names. -/
theorem operation_renamed (virtual : VirtualMachine) (operation : Operation) :
    (virtual.renamed rename).answer operation = virtual.answer operation ∧
      (virtual.renamed rename).perform operation =
        (virtual.perform operation).renamed (operation.namesBehind rename) := by
  have blockEq := fun input length => virtual.onCore_renamed rename
    (Core.processBlock_renamed rename input length)
  cases operation with
  | load patch =>
      -- what was loaded before, and under what names, is forgotten
      exact ⟨rfl, (renamed_id _).symm⟩
  | tick live =>
      have tickEq := virtual.onCore_renamed rename
        (Core.attempt_renamed rename .silence (Machine.nameBlind_tick rename live))
      have frameEq := congrArg Prod.fst tickEq
      exact ⟨congrArg Answer.frame frameEq, congrArg Prod.snd tickEq⟩
  | block input length =>
      have samplesEq := congrArg Prod.fst (blockEq input length)
      exact ⟨congrArg Answer.samples samplesEq, congrArg Prod.snd (blockEq input length)⟩
  | pull input length =>
      obtain ⟨core, isOpen⟩ := virtual
      cases isOpen with
      | false => exact ⟨rfl, rfl⟩
      | true =>
          have samplesEq := congrArg Prod.fst (blockEq input length)
          exact ⟨congrArg Answer.samples samplesEq, congrArg Prod.snd (blockEq input length)⟩
  | setSlider index value =>
      have sliderEq := virtual.core.machine.setSlider_renamed rename index value
      exact ⟨rfl, congrArg (fun machine => VirtualMachine.mk
        ⟨machine, virtual.core.held, virtual.core.poisoned⟩ virtual.isOpen) sliderEq⟩
  | start opened =>
      obtain ⟨core, isOpen⟩ := virtual
      cases opened <;> cases isOpen <;> exact ⟨rfl, rfl⟩
  | setSource | setFileFrames | stop | acquire | release | poison => exact ⟨rfl, rfl⟩

/-- A whole run under other names. -/
theorem run_renamed (virtual : VirtualMachine) (operations : List Operation) :
    (virtual.renamed rename).answers operations = virtual.answers operations ∧
      (virtual.renamed rename).performAll operations =
        (virtual.performAll operations).renamed
          (operations.foldl (fun rename operation => operation.namesBehind rename) rename) := by
  induction operations generalizing virtual rename with
  | nil => exact ⟨rfl, rfl⟩
  | cons operation others ih =>
      obtain ⟨answerEq, performEq⟩ := virtual.operation_renamed rename operation
      obtain ⟨answersEq, behindEq⟩ :=
        ih (operation.namesBehind rename) (virtual.perform operation)
      rw [answers, answers, answerEq, performEq]
      refine ⟨congrArg _ answersEq, ?_⟩
      rw [performAll, List.foldl_cons, performEq]
      exact behindEq

end VirtualMachine

end SignalPatch
