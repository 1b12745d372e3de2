import Mathlib.Data.List.Basic
import SignalPatch.Proofs.Machine.Height

/-!
# What instructions do

A completed instruction is described by what it does to the variables, to the
filter memories and to the list of the values on the operand stack.
-/

namespace SignalPatch

namespace Opcode

/-- The value of an opcode on its operands. -/
def value (opcode : Opcode) (operands : List Sample) : Sample :=
  match opcode, operands with
  | add, [left, right] => left + right
  | subtract, [left, right] => left - right
  | multiply, [left, right] => left * right
  | divide, [left, right] => left / right
  | remainder, [left, right] => left.remainder right
  | power, [left, right] => left.power right
  | round, [left, right] => left.quantize right
  | negate, [operand] => -operand
  | sine, [operand] => operand.sine
  | cosine, [operand] => operand.cosine
  | sineOfTurns, [operand] => operand.sineOfTurns
  | cosineOfTurns, [operand] => operand.cosineOfTurns
  | tangent, [operand] => operand.tangent
  | hyperbolicTangent, [operand] => operand.hyperbolicTangent
  | squareRoot, [operand] => operand.squareRoot
  | absolute, [operand] => operand.abs
  | limit, [operand] => operand.limit
  | fraction, [operand] => operand.fractional
  | _, _ => 0

private theorem values_of_combine {operation : Sample → Sample → Sample}
    {stack next : OperandStack} {below : List Sample} {left right : Sample}
    (combined : stack.combine operation = .ok next)
    (valuesEq : stack.toList = below ++ [left, right]) :
    next.toList = below ++ [operation left right] := by
  obtain ⟨_, others, first, second, stackEq, nextEq⟩ :=
    OperandStack.combine_eq_ok combined
  obtain ⟨rfl, pairEq⟩ := List.append_inj' (stackEq.symm.trans valuesEq) rfl
  cases pairEq
  exact nextEq

private theorem values_of_mapTop {operation : Sample → Sample} {stack next : OperandStack}
    {below : List Sample} {operand : Sample} (mapped : stack.mapTop operation = .ok next)
    (valuesEq : stack.toList = below ++ [operand]) :
    next.toList = below ++ [operation operand] := by
  obtain ⟨_, others, top, stackEq, nextEq⟩ := OperandStack.mapTop_eq_ok mapped
  obtain ⟨rfl, topEq⟩ := List.append_inj' (stackEq.symm.trans valuesEq) rfl
  cases topEq
  exact nextEq

/-- An opcode that leaves a value replaces its operands by it. -/
theorem values_of_apply {opcode : Opcode} {stack next : OperandStack}
    {below operands : List Sample} (leaves : opcode.results = 1)
    (countEq : operands.length = opcode.operands) (applied : opcode.apply stack = .ok next)
    (valuesEq : stack.toList = below ++ operands) :
    next.toList = below ++ [opcode.value operands] := by
  cases opcode with
  | discard => cases leaves
  | add | subtract | multiply | divide | remainder | power | round =>
      obtain ⟨left, right, rfl⟩ := List.length_eq_two.mp countEq
      exact values_of_combine applied valuesEq
  | negate | sine | cosine | sineOfTurns | cosineOfTurns | tangent | hyperbolicTangent
  | squareRoot | absolute | limit | fraction =>
      obtain ⟨operand, rfl⟩ := List.length_eq_one_iff.mp countEq
      exact values_of_mapTop applied valuesEq

end Opcode

namespace Memory

theorem run_singleton (instruction : Instruction) (memory : Memory) :
    run [instruction] memory = memory.step instruction := by
  simp only [run]
  split <;> simp_all

/-- A run is completed when its two parts are, one behind the other. -/
theorem run_append_eq_ok_iff {first second : List Instruction} {memory after : Memory} :
    run (first ++ second) memory = .ok after ↔
      ∃ middle, run first memory = .ok middle ∧ run second middle = .ok after := by
  rw [run_append]
  cases run first memory with
  | ok middle => simp [Except.bind]
  | error aborted => simp [Except.bind]

theorem afterStack_eq_ok_iff {table : VariableTable} {filters : FilterBank}
    {outcome : Except StackFailure OperandStack} {after : Memory} :
    afterStack table filters outcome = .ok after ↔
      outcome = .ok after.stack ∧ after.table = table ∧ after.filters = filters := by
  obtain ⟨afterTable, afterFilters, afterValues⟩ := after
  cases outcome with
  | error failure => simp [afterStack]
  | ok stack =>
      simp only [afterStack, Except.ok.injEq, Memory.mk.injEq]
      constructor
      · rintro ⟨rfl, rfl, rfl⟩
        exact ⟨rfl, rfl, rfl⟩
      · rintro ⟨rfl, rfl, rfl⟩
        exact ⟨rfl, rfl, rfl⟩

/-- What holds behind the push of a value. -/
structure Pushed (memory : Memory) (value : Sample) (after : Memory) : Prop where
  table_eq : after.table = memory.table
  filters_eq : after.filters = memory.filters
  values_eq : after.stack.toList = memory.stack.toList ++ [value]

private theorem pushed_of_afterStack {memory after : Memory} {value : Sample}
    (stepped : afterStack memory.table memory.filters (memory.stack.push value) = .ok after) :
    Pushed memory value after := by
  obtain ⟨pushed, tableEq, filtersEq⟩ := afterStack_eq_ok_iff.mp stepped
  exact ⟨tableEq, filtersEq, (OperandStack.push_eq_ok pushed).2.2⟩

theorem pushed_of_load {memory after : Memory} {value : Sample}
    (stepped : memory.step (.load value) = .ok after) : Pushed memory value after :=
  pushed_of_afterStack stepped

theorem pushed_of_read {memory after : Memory} {slot : Nat}
    (stepped : memory.step (.read slot) = .ok after) :
    Pushed memory ((memory.table.get? slot).getD 0) after :=
  pushed_of_afterStack stepped

theorem step_operate_eq_ok {memory after : Memory} {opcode : Opcode}
    (stepped : memory.step (.operate opcode) = .ok after) :
    opcode.apply memory.stack = .ok after.stack ∧ after.table = memory.table ∧
      after.filters = memory.filters :=
  afterStack_eq_ok_iff.mp stepped

/-- A write takes its value from the top of the stack. -/
theorem step_write_eq_ok {memory after : Memory} {slot : Nat}
    (stepped : memory.step (.write slot) = .ok after) :
    ∃ value, memory.stack.toList = after.stack.toList ++ [value] ∧
      after.table = memory.table.set slot value ∧ after.filters = memory.filters := by
  obtain ⟨table, filters, stack⟩ := memory
  simp only [step] at stepped
  split at stepped
  · cases stepped
  · rename_i value rest popped
    cases stepped
    exact ⟨value, (OperandStack.pop_eq_ok popped).2, rfl, rfl⟩

/-- A filter takes its arguments from the top of the stack and leaves its output there. -/
theorem step_filter_eq_ok {memory after : Memory} {kind : FilterKind} {count site : Nat}
    (stepped : memory.step (.filter kind count site) = .ok after) :
    ∃ below arguments output, memory.stack.toList = below ++ arguments ∧
      arguments.length = count ∧ after.table = memory.table ∧
      memory.filters.process site kind arguments = (some output, after.filters) ∧
      after.stack.toList = below ++ [output] := by
  obtain ⟨table, filters, stack⟩ := memory
  simp only [step] at stepped
  split at stepped
  · cases stepped
  · rename_i arguments rest popped
    obtain ⟨_, countEq, valuesEq⟩ := OperandStack.popMany_eq_ok popped
    split at stepped
    · cases stepped
    · rename_i output bank processed
      obtain ⟨pushed, tableEq, filtersEq⟩ := afterStack_eq_ok_iff.mp stepped
      have nextEq := (OperandStack.push_eq_ok pushed).2.2
      exact ⟨rest.toList, arguments, output, valuesEq, countEq, tableEq,
        filtersEq ▸ processed, nextEq⟩

end Memory

end SignalPatch
