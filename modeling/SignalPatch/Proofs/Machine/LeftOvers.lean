import SignalPatch.Proofs.Machine.AbortedTick

/-!
# What is left over on the stack

The cells of an operand stack above its values hold what was taken off it before.
Passes on memories that differ in such cells only end alike: a pass starts on an
empty stack, and reads a cell only behind a put into it.
-/

namespace SignalPatch

namespace OperandStack

/-- Two stacks with the same values, whatever is left over in their other cells. -/
structure Alike (first second : OperandStack) : Prop where
  capacity_eq : second.capacity = first.capacity
  values_eq : second.toList = first.toList

theorem Alike.size_eq {first second : OperandStack} (alike : first.Alike second) :
    second.size = first.size := by
  rw [← length_toList, alike.values_eq, length_toList]

theorem alike_clear {first second : OperandStack}
    (capacityEq : second.capacity = first.capacity) : first.clear.Alike second.clear :=
  ⟨capacityEq, by rw [toList_clear, toList_clear]⟩

end OperandStack

namespace Opcode

theorem eq_discard_of_results {opcode : Opcode} (leavesNone : opcode.results ≠ 1) :
    opcode = discard := by
  cases opcode with
  | discard => rfl
  | add | subtract | multiply | divide | remainder | power | round | negate | sine | cosine
  | sineOfTurns | cosineOfTurns | tangent | hyperbolicTangent | squareRoot | absolute | limit
  | fraction => exact absurd rfl leavesNone

theorem values_of_discard {stack next : OperandStack}
    (applied : discard.apply stack = .ok next) :
    ∃ value, stack.toList = next.toList ++ [value] := by
  simp only [apply] at applied
  split at applied
  · cases applied
  · rename_i value rest popped
    cases applied
    exact ⟨value, (OperandStack.pop_eq_ok popped).2⟩

theorem alike_of_apply {opcode : Opcode} {first second firstNext secondNext : OperandStack}
    (alike : first.Alike second) (firstApplied : opcode.apply first = .ok firstNext)
    (secondApplied : opcode.apply second = .ok secondNext) : firstNext.Alike secondNext := by
  obtain ⟨firstCapacity, enough, _⟩ := size_of_apply firstApplied
  obtain ⟨secondCapacity, _, _⟩ := size_of_apply secondApplied
  refine ⟨secondCapacity.trans (alike.capacity_eq.trans firstCapacity.symm), ?_⟩
  by_cases leaves : opcode.results = 1
  · have splitEq := (List.take_append_drop (first.size - opcode.operands) first.toList).symm
    have countEq :
        (first.toList.drop (first.size - opcode.operands)).length = opcode.operands := by
      rw [List.length_drop, OperandStack.length_toList]
      omega
    rw [values_of_apply leaves countEq secondApplied (alike.values_eq.trans splitEq),
      values_of_apply leaves countEq firstApplied splitEq]
  · obtain rfl := eq_discard_of_results leaves
    obtain ⟨firstValue, firstEq⟩ := values_of_discard firstApplied
    obtain ⟨secondValue, secondEq⟩ := values_of_discard secondApplied
    have valuesEq := alike.values_eq
    rw [firstEq, secondEq] at valuesEq
    exact (List.append_inj' valuesEq rfl).1

end Opcode

namespace Memory

/-- Two memories that differ only in what is left over on their stacks. -/
structure Alike (first second : Memory) : Prop where
  table_eq : second.table = first.table
  filters_eq : second.filters = first.filters
  stackAlike : first.stack.Alike second.stack

variable {first second firstNext secondNext : Memory}

theorem Pushed.alike {value : Sample} (alike : first.Alike second)
    (capacityEq : secondNext.stack.capacity = firstNext.stack.capacity)
    (firstPushed : Pushed first value firstNext)
    (secondPushed : Pushed second value secondNext) : firstNext.Alike secondNext where
  table_eq := by rw [secondPushed.table_eq, firstPushed.table_eq, alike.table_eq]
  filters_eq := by rw [secondPushed.filters_eq, firstPushed.filters_eq, alike.filters_eq]
  stackAlike := ⟨capacityEq, by
    rw [secondPushed.values_eq, firstPushed.values_eq, alike.stackAlike.values_eq]⟩

theorem Alike.ending_step (alike : first.Alike second) (instruction : Instruction) :
    ending (second.step instruction) = ending (first.step instruction) := by
  rw [(step_spec second instruction).1, (step_spec first instruction).1,
    alike.stackAlike.capacity_eq, alike.filters_eq, alike.stackAlike.size_eq]

theorem Alike.capacity_step (alike : first.Alike second) (instruction : Instruction) :
    (behind (second.step instruction)).stack.capacity =
      (behind (first.step instruction)).stack.capacity := by
  rw [(step_spec second instruction).2.capacity_eq, (step_spec first instruction).2.capacity_eq,
    alike.stackAlike.capacity_eq]

/-- An instruction that is completed on memories that are alike leaves such memories. -/
theorem Alike.of_step {instruction : Instruction} (alike : first.Alike second)
    (firstStep : first.step instruction = .ok firstNext)
    (secondStep : second.step instruction = .ok secondNext) : firstNext.Alike secondNext := by
  have capacityEq := alike.capacity_step instruction
  rw [firstStep, secondStep] at capacityEq
  cases instruction with
  | load value =>
      exact (pushed_of_load firstStep).alike alike capacityEq (pushed_of_load secondStep)
  | read slot =>
      have secondPushed := pushed_of_read secondStep
      rw [alike.table_eq] at secondPushed
      exact (pushed_of_read firstStep).alike alike capacityEq secondPushed
  | operate opcode =>
      obtain ⟨firstApplied, firstTable, firstFilters⟩ := step_operate_eq_ok firstStep
      obtain ⟨secondApplied, secondTable, secondFilters⟩ := step_operate_eq_ok secondStep
      refine ⟨?_, ?_, Opcode.alike_of_apply alike.stackAlike firstApplied secondApplied⟩
      · rw [secondTable, firstTable, alike.table_eq]
      · rw [secondFilters, firstFilters, alike.filters_eq]
  | write slot =>
      obtain ⟨firstValue, firstValues, firstTable, firstFilters⟩ := step_write_eq_ok firstStep
      obtain ⟨secondValue, secondValues, secondTable, secondFilters⟩ :=
        step_write_eq_ok secondStep
      have valuesEq := alike.stackAlike.values_eq
      rw [firstValues, secondValues] at valuesEq
      obtain ⟨restEq, topEq⟩ := List.append_inj' valuesEq rfl
      refine ⟨?_, ?_, capacityEq, restEq⟩
      · rw [secondTable, firstTable, alike.table_eq, List.singleton_inj.mp topEq]
      · rw [secondFilters, firstFilters, alike.filters_eq]
  | filter kind count site =>
      obtain ⟨firstBelow, firstArguments, firstOutput, firstValues, firstCount, firstTable,
        firstProcessed, firstNextValues⟩ := step_filter_eq_ok firstStep
      obtain ⟨secondBelow, secondArguments, secondOutput, secondValues, secondCount,
        secondTable, secondProcessed, secondNextValues⟩ := step_filter_eq_ok secondStep
      have valuesEq := alike.stackAlike.values_eq
      rw [firstValues, secondValues] at valuesEq
      obtain ⟨rfl, rfl⟩ := List.append_inj' valuesEq (secondCount.trans firstCount.symm)
      rw [alike.filters_eq, firstProcessed] at secondProcessed
      obtain ⟨outputEq, filtersEq⟩ := Prod.mk.inj secondProcessed
      refine ⟨?_, filtersEq.symm, capacityEq, ?_⟩
      · rw [secondTable, firstTable, alike.table_eq]
      · rw [secondNextValues, firstNextValues, Option.some.inj outputEq]

/-- Two passes that end alike.  What aborted ones leave on their stacks is not compared. -/
structure EndAlike (first second : Except Aborted Memory) : Prop where
  ending_eq : ending second = ending first
  table_eq : (behind second).table = (behind first).table
  filters_eq : (behind second).filters = (behind first).filters
  capacity_eq : (behind second).stack.capacity = (behind first).stack.capacity

theorem Alike.run (alike : first.Alike second) (code : List Instruction) :
    EndAlike (run code first) (run code second) := by
  induction code generalizing first second with
  | nil =>
      exact ⟨congrArg Except.ok alike.stackAlike.size_eq, alike.table_eq, alike.filters_eq,
        alike.stackAlike.capacity_eq⟩
  | cons instruction others ih =>
      have endingEq := alike.ending_step instruction
      have capacityEq := alike.capacity_step instruction
      simp only [Memory.run]
      cases firstStep : first.step instruction with
      | ok firstNext =>
          cases secondStep : second.step instruction with
          | ok secondNext => exact ih (alike.of_step firstStep secondStep)
          | error secondAborted =>
              rw [firstStep, secondStep] at endingEq
              cases endingEq
      | error firstAborted =>
          cases secondStep : second.step instruction with
          | ok secondNext =>
              rw [firstStep, secondStep] at endingEq
              cases endingEq
          | error secondAborted =>
              -- an aborted instruction has changed neither the variables nor the filter memories
              rw [firstStep, secondStep] at endingEq capacityEq
              obtain ⟨firstTable, firstFilters⟩ := changes_of_aborted firstStep
              obtain ⟨secondTable, secondFilters⟩ := changes_of_aborted secondStep
              refine ⟨endingEq, ?_, ?_, capacityEq⟩
              · exact secondTable.trans (alike.table_eq.trans firstTable.symm)
              · exact secondFilters.trans (alike.filters_eq.trans firstFilters.symm)

end Memory

end SignalPatch
