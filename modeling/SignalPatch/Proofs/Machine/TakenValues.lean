import SignalPatch.Proofs.Machine.Effects

/-!
# What instructions take from the stack

An instruction takes some values from the top of the stack and leaves others in their
place; what lies below it does not touch.  So code that needs nothing but room on an empty
stack takes nothing of what lies below on another one, however high that is.
-/

namespace SignalPatch

namespace Instruction

/-- How many values an instruction takes from the stack. -/
def pops : Instruction → Nat
  | load _ | read _ => 0
  | write _ => 1
  | operate opcode => opcode.operands
  | filter _ count _ => count

/-- How many values an instruction leaves in the place of those it takes. -/
def pushes : Instruction → Nat
  | load _ | read _ | filter .. => 1
  | write _ => 0
  | operate opcode => opcode.results

theorem height_eq_ok {capacity sites before behind : Nat} {instruction : Instruction}
    (heightEq : instruction.height capacity sites before = .ok behind) :
    instruction.pops ≤ before ∧ behind = before - instruction.pops + instruction.pushes := by
  cases instruction with
  | load | read =>
      simp only [height] at heightEq
      split at heightEq
      · cases heightEq
        exact ⟨Nat.zero_le before, rfl⟩
      · cases heightEq
  | write slot =>
      simp only [height] at heightEq
      split at heightEq
      · cases heightEq
      · cases heightEq
        exact ⟨by simp only [pops]; omega, rfl⟩
  | operate opcode =>
      simp only [height] at heightEq
      split at heightEq
      · rename_i enough
        cases heightEq
        exact ⟨enough, rfl⟩
      · cases heightEq
  | filter kind count site =>
      simp only [height] at heightEq
      split at heightEq
      · cases heightEq
      · rename_i enough
        split at heightEq
        · cases heightEq
          exact ⟨Nat.le_of_not_lt enough, rfl⟩
        · cases heightEq

end Instruction

namespace Memory

/-- The values above some others are taken, and others given in their place. -/
structure Exchange (instruction : Instruction) (before after : List Sample)
    (below taken given : List Sample) : Prop where
  before_eq : before = below ++ taken
  after_eq : after = below ++ given
  taken_length : taken.length = instruction.pops
  given_length : given.length = instruction.pushes

theorem exchange_of_step {memory next : Memory} {instruction : Instruction}
    (stepped : memory.step instruction = .ok next) :
    ∃ below taken given,
      Exchange instruction memory.stack.toList next.stack.toList below taken given := by
  cases instruction with
  | load value =>
      have pushed := pushed_of_load stepped
      exact ⟨memory.stack.toList, [], [value], (List.append_nil _).symm, pushed.values_eq, rfl, rfl⟩
  | read slot =>
      have pushed := pushed_of_read stepped
      exact ⟨memory.stack.toList, [], [_], (List.append_nil _).symm, pushed.values_eq, rfl, rfl⟩
  | write slot =>
      obtain ⟨value, valuesEq, _⟩ := step_write_eq_ok stepped
      exact ⟨next.stack.toList, [value], [], valuesEq, (List.append_nil _).symm, rfl, rfl⟩
  | filter kind count site =>
      obtain ⟨below, arguments, output, valuesEq, countEq, _, _, nextEq⟩ :=
        step_filter_eq_ok stepped
      exact ⟨below, arguments, [output], valuesEq, nextEq, countEq, rfl⟩
  | operate opcode =>
      obtain ⟨applied, _⟩ := step_operate_eq_ok stepped
      by_cases leaves : opcode.results = 1
      · obtain ⟨_, enough, _⟩ := Opcode.size_of_apply applied
        let kept := memory.stack.size - opcode.operands
        have splitEq := (List.take_append_drop kept memory.stack.toList).symm
        have countEq : (memory.stack.toList.drop kept).length = opcode.operands := by
          rw [List.length_drop, OperandStack.length_toList]
          omega
        have nextEq := Opcode.values_of_apply leaves countEq applied splitEq
        exact ⟨_, _, _, splitEq, nextEq, countEq, leaves.symm⟩
      · -- only a discarded value leaves nothing in its place
        cases opcode with
        | discard =>
            simp only [Opcode.apply] at applied
            split at applied
            · cases applied
            · rename_i value rest popped
              cases applied
              have valuesEq := (OperandStack.pop_eq_ok popped).2
              exact ⟨_, [value], [], valuesEq, (List.append_nil _).symm, rfl, rfl⟩
        | _ => exact absurd rfl leaves

/-- A step that takes nothing of what lies below leaves it where it is. -/
theorem exists_above_of_step {memory next : Memory} {instruction : Instruction}
    {floor values : List Sample} (stepped : memory.step instruction = .ok next)
    (valuesEq : memory.stack.toList = floor ++ values) (enough : instruction.pops ≤ values.length) :
    ∃ left, next.stack.toList = floor ++ left ∧
      left.length = values.length - instruction.pops + instruction.pushes := by
  obtain ⟨below, taken, given, exchange⟩ := exchange_of_step stepped
  have sameEq : floor ++ values = below ++ taken := valuesEq.symm.trans exchange.before_eq
  have lengthsEq := congrArg List.length sameEq
  simp only [List.length_append, exchange.taken_length] at lengthsEq
  have within : floor <+: below := by
    have inStack : floor <+: below ++ taken := ⟨values, sameEq⟩
    exact List.prefix_of_prefix_length_le inStack (List.prefix_append _ _) (by omega)
  obtain ⟨kept, rfl⟩ := within
  rw [List.append_assoc, List.append_cancel_left_eq] at sameEq
  refine ⟨kept ++ given, ?_, ?_⟩
  · rw [exchange.after_eq, List.append_assoc]
  · rw [sameEq, List.length_append, List.length_append, exchange.taken_length,
      exchange.given_length, Nat.add_sub_cancel]

/-- Code has a height behind it if its first instruction has one, and the others behind that. -/
theorem heightBehind_cons_eq_ok {capacity sites before behind : Nat} {instruction : Instruction}
    {others : List Instruction}
    (heightEq : heightBehind capacity sites before (instruction :: others) = .ok behind) :
    ∃ middle, instruction.height capacity sites before = .ok middle ∧
      heightBehind capacity sites middle others = .ok behind := by
  rw [heightBehind, List.foldlM_cons] at heightEq
  cases firstEq : instruction.height capacity sites before with
  | error guard =>
      rw [firstEq] at heightEq
      cases heightEq
  | ok middle =>
      rw [firstEq] at heightEq
      exact ⟨middle, rfl, heightEq⟩

/-- Whether some values lie at the bottom of the stack all along a run, and no instruction
takes one of them. -/
def StaysAbove (floor : List Sample) : List Instruction → Memory → Prop
  | [], memory => floor <+: memory.stack.toList
  | instruction :: others, memory =>
      floor <+: memory.stack.toList ∧
        floor.length + instruction.pops ≤ memory.stack.size ∧
        ∀ next, memory.step instruction = .ok next → StaysAbove floor others next

/-- Code that can run on part of a stack leaves alone what lies below that part. -/
theorem staysAbove_of_height {code : List Instruction} {capacity sites behind : Nat}
    {memory : Memory} {floor values : List Sample}
    (valuesEq : memory.stack.toList = floor ++ values)
    (heightEq : heightBehind capacity sites values.length code = .ok behind) :
    StaysAbove floor code memory := by
  induction code generalizing memory values with
  | nil => exact ⟨values, valuesEq.symm⟩
  | cons instruction others ih =>
      obtain ⟨middle, firstEq, othersEq⟩ := heightBehind_cons_eq_ok heightEq
      obtain ⟨enough, rfl⟩ := Instruction.height_eq_ok firstEq
      have sizeEq := congrArg List.length valuesEq
      rw [OperandStack.length_toList, List.length_append] at sizeEq
      refine ⟨⟨values, valuesEq.symm⟩, by omega, ?_⟩
      intro next stepped
      obtain ⟨left, leftEq, lengthEq⟩ := exists_above_of_step stepped valuesEq enough
      rw [← lengthEq] at othersEq
      exact ih leftEq othersEq

/-- A filter call in code that can run has a site, and a count of arguments that it takes. -/
theorem accepted_of_height {code : List Instruction} {capacity sites before behind : Nat}
    (heightEq : heightBehind capacity sites before code = .ok behind) {kind : FilterKind}
    {count site : Nat} (member : .filter kind count site ∈ code) :
    site < sites ∧ FilterBank.fits kind count = true := by
  induction code generalizing before with
  | nil => cases member
  | cons instruction others ih =>
      obtain ⟨middle, firstEq, othersEq⟩ := heightBehind_cons_eq_ok heightEq
      rcases List.mem_cons.mp member with rfl | later
      · simp only [Instruction.height] at firstEq
        split at firstEq
        · cases firstEq
        · split at firstEq
          · rename_i accepted
            simpa using accepted
          · cases firstEq
      · exact ih othersEq later

end Memory

end SignalPatch
