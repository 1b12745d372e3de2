import SignalPatch.Proofs.Machine.StackValues
import SignalPatch.Proofs.Program.Interning

/-!
# Heights of the operand stack

How a pass over a program ends depends on no value.  The height of the operand
stack, its capacity and the number of filter sites decide whether each
instruction succeeds and how high the stack is behind it.  A pass keeps the
names of the variables, the number of sites and the capacity, also when it is
aborted.
-/

namespace SignalPatch

namespace OperandStack

theorem size_of_pop {stack next : OperandStack} {value : Sample}
    (popped : stack.pop = .ok (value, next)) :
    next.capacity = stack.capacity ∧ stack.size = next.size + 1 := by
  obtain ⟨capacityEq, valuesEq⟩ := pop_eq_ok popped
  exact ⟨capacityEq, size_of_append valuesEq⟩

theorem size_of_push {stack next : OperandStack} {value : Sample}
    (pushed : stack.push value = .ok next) :
    next.capacity = stack.capacity ∧ next.size = stack.size + 1 := by
  obtain ⟨_, capacityEq, valuesEq⟩ := push_eq_ok pushed
  exact ⟨capacityEq, size_of_append valuesEq⟩

theorem size_of_mapTop {stack next : OperandStack} {change : Sample → Sample}
    (mapped : stack.mapTop change = .ok next) :
    next.capacity = stack.capacity ∧ 1 ≤ stack.size ∧ next.size = stack.size := by
  obtain ⟨capacityEq, below, value, valuesEq, nextEq⟩ := mapTop_eq_ok mapped
  have lengths := congrArg List.length valuesEq
  have nextLengths := congrArg List.length nextEq
  simp only [length_toList, List.length_append, List.length_cons, List.length_nil]
    at lengths nextLengths
  exact ⟨capacityEq, by omega, by omega⟩

theorem size_of_combine {stack next : OperandStack} {operation : Sample → Sample → Sample}
    (combined : stack.combine operation = .ok next) :
    next.capacity = stack.capacity ∧ 2 ≤ stack.size ∧ next.size = stack.size - 1 := by
  obtain ⟨capacityEq, below, first, second, valuesEq, nextEq⟩ := combine_eq_ok combined
  have lengths := congrArg List.length valuesEq
  have nextLengths := congrArg List.length nextEq
  simp only [length_toList, List.length_append, List.length_cons, List.length_nil]
    at lengths nextLengths
  exact ⟨capacityEq, by omega, by omega⟩

/-- A combination fails only for want of a pair. -/
theorem fault_of_combine {stack : OperandStack} {operation : Sample → Sample → Sample}
    {failure : StackFailure} (failed : stack.combine operation = .error failure) :
    stack.size < 2 ∧ failure.fault = .underflow ∧
      failure.left.capacity = stack.capacity := by
  unfold combine at failed
  split at failed
  · rename_i pairFailure pairFailed
    cases failed
    obtain ⟨few, faultEq, capacityEq, _⟩ := popPair_eq_error pairFailed
    exact ⟨few, faultEq, capacityEq⟩
  · rename_i first second rest popped
    obtain ⟨capacityEq, valuesEq⟩ := popPair_eq_ok popped
    obtain ⟨full, _⟩ := push_eq_error_iff.mp failed
    have bound := stack.size_le_capacity
    have sizeEq : stack.size = rest.size + 2 := size_of_append valuesEq
    omega

end OperandStack

namespace Opcode

/-- How many values an opcode leaves in the place of its operands. -/
def results : Opcode → Nat
  | discard => 0
  | _ => 1

theorem size_of_apply {opcode : Opcode} {stack next : OperandStack}
    (applied : opcode.apply stack = .ok next) :
    next.capacity = stack.capacity ∧ opcode.operands ≤ stack.size ∧
      next.size = stack.size - opcode.operands + opcode.results := by
  cases opcode with
  | discard =>
      simp only [apply] at applied
      split at applied
      · cases applied
      · rename_i value rest popped
        cases applied
        obtain ⟨capacityEq, sizeEq⟩ := OperandStack.size_of_pop popped
        exact ⟨capacityEq, by simp [operands]; omega, by simp [operands, results]; omega⟩
  | add | subtract | multiply | divide | remainder | power | round =>
      obtain ⟨capacityEq, enough, sizeEq⟩ := OperandStack.size_of_combine applied
      exact ⟨capacityEq, enough, by simp only [operands, results]; omega⟩
  | negate | sine | cosine | sineOfTurns | cosineOfTurns | tangent | hyperbolicTangent
  | squareRoot | absolute | limit | fraction =>
      obtain ⟨capacityEq, enough, sizeEq⟩ := OperandStack.size_of_mapTop applied
      exact ⟨capacityEq, enough, by simp only [operands, results]; omega⟩

/-- An opcode fails only for want of operands. -/
theorem fault_of_apply {opcode : Opcode} {stack : OperandStack} {failure : StackFailure}
    (failed : opcode.apply stack = .error failure) :
    stack.size < opcode.operands ∧ failure.fault = .underflow ∧
      failure.left.capacity = stack.capacity := by
  cases opcode with
  | discard =>
      simp only [apply] at failed
      split at failed
      · rename_i popFailure popFailed
        cases failed
        obtain ⟨sizeEq, rfl⟩ := OperandStack.pop_eq_error_iff.mp popFailed
        exact ⟨by simp [operands]; omega, rfl, rfl⟩
      · cases failed
  | add | subtract | multiply | divide | remainder | power | round =>
      exact OperandStack.fault_of_combine failed
  | negate | sine | cosine | sineOfTurns | cosineOfTurns | tangent | hyperbolicTangent
  | squareRoot | absolute | limit | fraction =>
      obtain ⟨sizeEq, rfl⟩ := OperandStack.mapTop_eq_error_iff.mp failed
      exact ⟨by simp only [operands]; omega, rfl, rfl⟩

end Opcode

namespace FilterBank

/-- Whether a filter can run on so many arguments, its input included. -/
def fits : FilterKind → Nat → Bool
  | .fir, count => 1 ≤ count && count ≤ maxTaps + 1
  | .biquad, count => count == 6

theorem stepMemory_isSome (memory : FilterMemory) (kind : FilterKind) (input : Sample)
    (coefficients : List Sample) :
    (stepMemory memory kind input coefficients).isSome =
      fits kind (coefficients.length + 1) := by
  cases kind with
  | fir =>
      by_cases few : coefficients.length ≤ maxTaps
      · simp [stepMemory, fits, few]
      · simp [stepMemory, fits, few]
  | biquad =>
      rcases coefficients with _ | ⟨_, _ | ⟨_, _ | ⟨_, _ | ⟨_, _ | ⟨_, _ | ⟨_, others⟩⟩⟩⟩⟩⟩ <;>
        simp [stepMemory, fits]

theorem process_isSome (bank : FilterBank) (site : Nat) (kind : FilterKind)
    (arguments : List Sample) :
    (bank.process site kind arguments).1.isSome =
      (site < bank.size && fits kind arguments.length) := by
  obtain ⟨sites⟩ := bank
  by_cases inside : site < sites.size
  · cases arguments with
    | nil => cases kind <;> simp [process, inside, fits]
    | cons input coefficients =>
        have accepted := stepMemory_isSome sites[site] kind input coefficients
        cases stepped : stepMemory sites[site] kind input coefficients with
        | none =>
            rw [stepped] at accepted
            simp [process, inside, stepped, ← accepted]
        | some result =>
            rw [stepped] at accepted
            simp [process, inside, stepped, size, ← accepted]
  · simp [process, inside, size]

@[simp]
theorem size_process (bank : FilterBank) (site : Nat) (kind : FilterKind)
    (arguments : List Sample) : (bank.process site kind arguments).2.size = bank.size := by
  obtain ⟨sites⟩ := bank
  simp only [process]
  split
  · split
    · rfl
    · split
      · rfl
      · simp [size]
  · rfl

end FilterBank

namespace Instruction

/-- The height behind an instruction that finds the stack so high, or why it aborts. -/
def height (capacity sites before : Nat) : Instruction → Except Guard Nat
  | load _ | read _ =>
      if before < capacity then .ok (before + 1) else .error (.stack .overflow)
  | write _ => if before = 0 then .error (.stack .underflow) else .ok (before - 1)
  | operate opcode =>
      if opcode.operands ≤ before then .ok (before - opcode.operands + opcode.results)
      else .error (.stack .underflow)
  | filter kind count site =>
      if before < count then .error (.stack .underflow)
      else if site < sites && FilterBank.fits kind count then .ok (before - count + 1)
      else .error .filterArguments

end Instruction

namespace Memory

structure SameLayout (before after : Memory) : Prop where
  names_eq : after.table.names = before.table.names
  sites_eq : after.filters.size = before.filters.size
  capacity_eq : after.stack.capacity = before.stack.capacity

theorem SameLayout.refl (memory : Memory) : SameLayout memory memory :=
  ⟨rfl, rfl, rfl⟩

theorem SameLayout.trans {first second third : Memory} (left : SameLayout first second)
    (right : SameLayout second third) : SameLayout first third :=
  ⟨right.names_eq.trans left.names_eq, right.sites_eq.trans left.sites_eq,
    right.capacity_eq.trans left.capacity_eq⟩

/-- The memory behind a pass, whether it was completed or aborted. -/
def behind : Except Aborted Memory → Memory
  | .ok memory => memory
  | .error aborted => aborted.left

/-- How a pass ends: with a stack so high, or aborted for a reason. -/
def ending : Except Aborted Memory → Except Guard Nat
  | .ok memory => .ok memory.stack.size
  | .error aborted => .error aborted.guard

theorem run_append (first second : List Instruction) (memory : Memory) :
    run (first ++ second) memory = (run first memory).bind (run second) := by
  induction first generalizing memory with
  | nil => rfl
  | cons instruction others ih =>
      simp only [List.cons_append, run]
      split
      · rfl
      · exact ih _

private theorem afterPush_spec (table : VariableTable) (filters : FilterBank)
    (stack : OperandStack) (value : Sample) :
    ending (afterStack table filters (stack.push value)) =
        (if stack.size < stack.capacity then .ok (stack.size + 1)
          else .error (.stack .overflow)) ∧
      SameLayout ⟨table, filters, stack⟩
        (behind (afterStack table filters (stack.push value))) := by
  cases pushed : stack.push value with
  | ok next =>
      obtain ⟨room, _, _⟩ := OperandStack.push_eq_ok pushed
      obtain ⟨capacityEq, sizeEq⟩ := OperandStack.size_of_push pushed
      exact ⟨by simp [afterStack, ending, room, sizeEq], rfl, rfl, capacityEq⟩
  | error failure =>
      obtain ⟨full, rfl⟩ := OperandStack.push_eq_error_iff.mp pushed
      have noRoom : ¬ stack.size < stack.capacity := by omega
      exact ⟨by simp [afterStack, ending, noRoom], rfl, rfl, rfl⟩

/-- Where a filter has run, there is room for its output in the place of its arguments. -/
theorem room_of_process {stack rest : OperandStack} {count site : Nat} {kind : FilterKind}
    {arguments : List Sample} {output : Sample} {filters bank : FilterBank}
    (popped : stack.popMany count = .ok (arguments, rest))
    (processed : filters.process site kind arguments = (some output, bank)) :
    rest.size < rest.capacity := by
  obtain ⟨capacityEq, _, valuesEq⟩ := OperandStack.popMany_eq_ok popped
  have accepted := FilterBank.process_isSome filters site kind arguments
  simp only [processed, Option.isSome_some, Bool.true_eq, Bool.and_eq_true] at accepted
  have positive : 0 < arguments.length := by
    have fits := accepted.2
    cases kind <;> simp [FilterBank.fits] at fits <;> omega
  have sizeEq := OperandStack.size_of_append valuesEq
  have bound := stack.size_le_capacity
  omega

private theorem filter_spec (table : VariableTable) (filters : FilterBank)
    (stack : OperandStack) (kind : FilterKind) (count site : Nat) :
    ending (step ⟨table, filters, stack⟩ (.filter kind count site)) =
        Instruction.height stack.capacity filters.size stack.size (.filter kind count site) ∧
      SameLayout ⟨table, filters, stack⟩
        (behind (step ⟨table, filters, stack⟩ (.filter kind count site))) := by
  cases popped : stack.popMany count with
  | ok result =>
      obtain ⟨arguments, next⟩ := result
      obtain ⟨capacityEq, countEq, valuesEq⟩ := OperandStack.popMany_eq_ok popped
      have sizeEq : stack.size = next.size + count := by
        have lengths := congrArg List.length valuesEq
        simpa [countEq] using lengths
      have enough : ¬ stack.size < count := by omega
      have bankEq : (filters.process site kind arguments).2.size = filters.size :=
        FilterBank.size_process filters site kind arguments
      have accepted := FilterBank.process_isSome filters site kind arguments
      rw [countEq] at accepted
      cases processed : filters.process site kind arguments with
      | mk output bank =>
          rw [processed] at accepted bankEq
          cases output with
          | none =>
              simp only [step, popped, processed, ending, behind, Instruction.height,
                enough, ↓reduceIte, ← accepted, Option.isSome_none, Bool.false_eq_true,
                true_and]
              exact ⟨rfl, bankEq, capacityEq⟩
          | some value =>
              obtain ⟨endingEq, pushLayout⟩ := afterPush_spec table bank next value
              have room := room_of_process popped processed
              simp only [step, popped, processed, Instruction.height, enough, ↓reduceIte,
                ← accepted, Option.isSome_some, endingEq, room]
              refine ⟨by rw [sizeEq, Nat.add_sub_cancel], ?_⟩
              have before : SameLayout ⟨table, filters, stack⟩ ⟨table, bank, next⟩ :=
                ⟨rfl, bankEq, capacityEq⟩
              exact before.trans pushLayout
  | error failure =>
      obtain ⟨few, rfl⟩ := OperandStack.popMany_eq_error_iff.mp popped
      simp only [step, popped, ending, behind, Instruction.height, few, ↓reduceIte,
        true_and]
      exact ⟨rfl, rfl, rfl⟩

/-- The height decides how an instruction ends. -/
theorem step_spec (memory : Memory) (instruction : Instruction) :
    ending (memory.step instruction) =
        instruction.height memory.stack.capacity memory.filters.size memory.stack.size ∧
      SameLayout memory (behind (memory.step instruction)) := by
  obtain ⟨table, filters, stack⟩ := memory
  cases instruction with
  | load value => exact afterPush_spec table filters stack value
  | read slot => exact afterPush_spec table filters stack _
  | operate opcode =>
      cases applied : opcode.apply stack with
      | ok next =>
          obtain ⟨capacityEq, enough, sizeEq⟩ := Opcode.size_of_apply applied
          simp only [step, applied, afterStack, ending, behind, Instruction.height, enough,
            ↓reduceIte, sizeEq, true_and]
          exact ⟨rfl, rfl, capacityEq⟩
      | error failure =>
          obtain ⟨few, faultEq, capacityEq⟩ := Opcode.fault_of_apply applied
          have notEnough : ¬ opcode.operands ≤ stack.size := by omega
          simp only [step, applied, afterStack, ending, behind, Instruction.height, notEnough,
            ↓reduceIte, faultEq, true_and]
          exact ⟨rfl, rfl, capacityEq⟩
  | write slot =>
      cases popped : stack.pop with
      | ok result =>
          obtain ⟨value, next⟩ := result
          obtain ⟨capacityEq, sizeEq⟩ := OperandStack.size_of_pop popped
          simp only [step, popped, ending, behind, Instruction.height, sizeEq,
            Nat.succ_ne_zero, ↓reduceIte, Nat.add_sub_cancel, true_and]
          exact ⟨VariableTable.names_set table slot value, rfl, capacityEq⟩
      | error failure =>
          obtain ⟨sizeEq, rfl⟩ := OperandStack.pop_eq_error_iff.mp popped
          simp only [step, popped, ending, behind, Instruction.height, sizeEq, ↓reduceIte,
            true_and]
          exact ⟨rfl, rfl, rfl⟩
  | filter kind count site => exact filter_spec table filters stack kind count site

/-- The height behind a run of instructions that finds the stack so high, or why it aborts. -/
def heightBehind (capacity sites before : Nat) (code : List Instruction) : Except Guard Nat :=
  code.foldlM (fun height instruction => instruction.height capacity sites height) before

theorem heightBehind_append (capacity sites before : Nat) (first second : List Instruction) :
    heightBehind capacity sites before (first ++ second) =
      (heightBehind capacity sites before first).bind
        (fun height => heightBehind capacity sites height second) :=
  List.foldlM_append

@[simp]
theorem heightBehind_singleton (capacity sites before : Nat) (instruction : Instruction) :
    heightBehind capacity sites before [instruction] =
      instruction.height capacity sites before := by
  simp [heightBehind]

/-- Heights decide how a run ends, whatever the values are. -/
theorem run_spec (code : List Instruction) (memory : Memory) :
    ending (run code memory) =
        heightBehind memory.stack.capacity memory.filters.size memory.stack.size code ∧
      SameLayout memory (behind (run code memory)) := by
  induction code generalizing memory with
  | nil => exact ⟨rfl, SameLayout.refl memory⟩
  | cons instruction others ih =>
      obtain ⟨endingEq, stepLayout⟩ := step_spec memory instruction
      simp only [run, heightBehind, List.foldlM_cons]
      rw [← endingEq]
      cases stepped : memory.step instruction with
      | error aborted =>
          rw [stepped] at stepLayout
          exact ⟨rfl, stepLayout⟩
      | ok next =>
          rw [stepped] at stepLayout
          have nextLayout : SameLayout memory next := stepLayout
          obtain ⟨restEq, restLayout⟩ := ih next
          rw [nextLayout.capacity_eq, nextLayout.sites_eq] at restEq
          exact ⟨restEq, nextLayout.trans restLayout⟩

end Memory

end SignalPatch
