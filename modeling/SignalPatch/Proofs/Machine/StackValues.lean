import SignalPatch.Machine.Execution

/-!
# The operand stack as a bounded list

Every operation on the operand stack is described by its capacity and by the
list of the values on it.  An operation succeeds exactly when the list has the
shape it asks for, and a failed one names the shape that was missing.  What is
left over in the other cells plays no part in this.
-/

namespace SignalPatch

namespace OperandStack

@[simp]
theorem length_toList (stack : OperandStack) : stack.toList.length = stack.size := by
  rw [toList, List.length_take, Array.length_toList, Nat.min_eq_left stack.size_le]

theorem size_of_append {stack next : OperandStack} {taken : List Sample}
    (valuesEq : stack.toList = next.toList ++ taken) : stack.size = next.size + taken.length := by
  rw [← length_toList, valuesEq, List.length_append, length_toList]

theorem toList_eq_nil {stack : OperandStack} (sizeEq : stack.size = 0) : stack.toList = [] :=
  List.eq_nil_of_length_eq_zero (stack.length_toList.trans sizeEq)

theorem size_le_capacity (stack : OperandStack) : stack.size ≤ stack.capacity :=
  Nat.le_trans stack.size_le stack.cells_le

@[simp]
theorem toList_clear (stack : OperandStack) : stack.clear.toList = [] :=
  List.take_zero

@[simp]
theorem size_clear (stack : OperandStack) : stack.clear.size = 0 :=
  rfl

/-- Behind a put, the values below are followed by the one that was put. -/
theorem take_put {cells : Array Sample} {size : Nat} (size_le : size ≤ cells.size)
    (value : Sample) :
    (put cells size value).toList.take (size + 1) = cells.toList.take size ++ [value] := by
  unfold put
  split
  · rename_i inside
    have insideList : size < cells.toList.length := by simpa using inside
    rw [Array.toList_set, List.take_set, List.take_succ_eq_append_getElem insideList]
    have reached : (cells.toList.take size).length = size := by
      rw [List.length_take]
      omega
    rw [List.set_append_right _ _ (by omega), reached, Nat.sub_self, List.set_cons_zero]
  · rename_i outside
    have sizeEq : size = cells.toList.length := by
      rw [Array.length_toList]
      omega
    rw [Array.toList_push, sizeEq, List.take_length]
    exact List.take_of_length_le (Nat.le_of_eq List.length_append)

theorem take_pred_append {cells : Array Sample} {size : Nat} (size_le : size ≤ cells.size)
    (nonempty : 0 < size) :
    cells.toList.take size = cells.toList.take (size - 1) ++ [cells[size - 1]] := by
  obtain ⟨below, rfl⟩ := Nat.exists_eq_add_one.mpr nonempty
  have inside : below < cells.toList.length := by
    rw [Array.length_toList]
    omega
  exact List.take_succ_eq_append_getElem inside

theorem push_eq_ok {stack next : OperandStack} {value : Sample}
    (pushed : stack.push value = .ok next) :
    stack.size < stack.capacity ∧ next.capacity = stack.capacity ∧
      next.toList = stack.toList ++ [value] := by
  obtain ⟨capacity, cells, size, size_le, cells_le⟩ := stack
  by_cases room : size < capacity
  · simp only [push, room, ↓reduceDIte, Except.ok.injEq] at pushed
    subst pushed
    exact ⟨room, rfl, take_put size_le value⟩
  · simp [push, room] at pushed

/-- A push fails on a full stack only, which it leaves as it is. -/
theorem push_eq_error_iff {stack : OperandStack} {value : Sample} {failure : StackFailure} :
    stack.push value = .error failure ↔
      stack.capacity ≤ stack.size ∧ failure = ⟨.overflow, stack⟩ := by
  obtain ⟨capacity, cells, size, size_le, cells_le⟩ := stack
  by_cases room : size < capacity
  · have notFull : ¬ capacity ≤ size := by omega
    simp [push, room, notFull]
  · have full : capacity ≤ size := by omega
    simp [push, room, full, eq_comm]

theorem pop_eq_ok {stack next : OperandStack} {value : Sample}
    (popped : stack.pop = .ok (value, next)) :
    next.capacity = stack.capacity ∧ stack.toList = next.toList ++ [value] := by
  obtain ⟨capacity, cells, size, size_le, cells_le⟩ := stack
  by_cases nonempty : 0 < size
  · simp only [pop, nonempty, ↓reduceDIte, Except.ok.injEq, Prod.mk.injEq] at popped
    obtain ⟨rfl, rfl⟩ := popped
    exact ⟨rfl, take_pred_append size_le nonempty⟩
  · simp [pop, nonempty] at popped

/-- A pop fails on an empty stack only, which it leaves as it is. -/
theorem pop_eq_error_iff {stack : OperandStack} {failure : StackFailure} :
    stack.pop = .error failure ↔ stack.size = 0 ∧ failure = ⟨.underflow, stack⟩ := by
  obtain ⟨capacity, cells, size, size_le, cells_le⟩ := stack
  by_cases nonempty : 0 < size
  · have sizeNe : size ≠ 0 := by omega
    simp [pop, nonempty, sizeNe]
  · have sizeEq : size = 0 := by omega
    simp [pop, sizeEq, eq_comm]

theorem top_eq_map_pop (stack : OperandStack) : stack.top = stack.pop.map Prod.fst := by
  obtain ⟨capacity, cells, size, size_le, cells_le⟩ := stack
  simp only [top, pop]
  split
  · rfl
  · rfl

/-- Only the value on top is replaced. -/
theorem mapTop_eq_ok {stack next : OperandStack} {change : Sample → Sample}
    (mapped : stack.mapTop change = .ok next) :
    next.capacity = stack.capacity ∧
      ∃ below value, stack.toList = below ++ [value] ∧
        next.toList = below ++ [change value] := by
  obtain ⟨capacity, cells, size, size_le, cells_le⟩ := stack
  by_cases nonempty : 0 < size
  · simp only [mapTop, nonempty, ↓reduceDIte, Except.ok.injEq] at mapped
    subst mapped
    have last := take_pred_append size_le nonempty
    refine ⟨rfl, _, _, last, ?_⟩
    have below : (cells.toList.take (size - 1)).length = size - 1 := by
      rw [List.length_take, Array.length_toList]
      omega
    rw [toList, Array.toList_set, List.take_set, last,
      List.set_append_right _ _ (by omega), below, Nat.sub_self, List.set_cons_zero]
  · simp [mapTop, nonempty] at mapped

theorem mapTop_eq_error_iff {stack : OperandStack} {change : Sample → Sample}
    {failure : StackFailure} :
    stack.mapTop change = .error failure ↔
      stack.size = 0 ∧ failure = ⟨.underflow, stack⟩ := by
  obtain ⟨capacity, cells, size, size_le, cells_le⟩ := stack
  by_cases nonempty : 0 < size
  · have sizeNe : size ≠ 0 := by omega
    simp [mapTop, nonempty, sizeNe]
  · have sizeEq : size = 0 := by omega
    simp [mapTop, sizeEq, eq_comm]

theorem popPair_eq_ok {stack next : OperandStack} {first second : Sample}
    (popped : stack.popPair = .ok ((first, second), next)) :
    next.capacity = stack.capacity ∧ stack.toList = next.toList ++ [first, second] := by
  unfold popPair at popped
  split at popped
  · cases popped
  · rename_i lastValue middle lastPopped
    split at popped
    · cases popped
    · rename_i firstValue rest firstPopped
      cases popped
      obtain ⟨middleCapacity, stackEq⟩ := pop_eq_ok lastPopped
      obtain ⟨restCapacity, middleEq⟩ := pop_eq_ok firstPopped
      refine ⟨restCapacity.trans middleCapacity, ?_⟩
      rw [stackEq, middleEq, List.append_assoc]
      rfl

/-- A pair is missing where there are less than two values, and a lone one is gone. -/
theorem popPair_eq_error {stack : OperandStack} {failure : StackFailure}
    (failed : stack.popPair = .error failure) :
    stack.size < 2 ∧ failure.fault = .underflow ∧ failure.left.capacity = stack.capacity ∧
      failure.left.toList = [] := by
  unfold popPair at failed
  split at failed
  · rename_i lastFailure lastFailed
    cases failed
    obtain ⟨sizeEq, rfl⟩ := pop_eq_error_iff.mp lastFailed
    exact ⟨by omega, rfl, rfl, toList_eq_nil sizeEq⟩
  · rename_i value rest lastPopped
    obtain ⟨capacityEq, stackEq⟩ := pop_eq_ok lastPopped
    split at failed
    · rename_i firstFailure firstFailed
      cases failed
      obtain ⟨restEmpty, rfl⟩ := pop_eq_error_iff.mp firstFailed
      have sizeEq : stack.size = 1 := by rw [size_of_append stackEq, restEmpty]; rfl
      exact ⟨by omega, rfl, capacityEq, toList_eq_nil restEmpty⟩
    · cases failed

/-- Two values are replaced by one. -/
theorem combine_eq_ok {stack next : OperandStack} {operation : Sample → Sample → Sample}
    (combined : stack.combine operation = .ok next) :
    next.capacity = stack.capacity ∧
      ∃ below first second, stack.toList = below ++ [first, second] ∧
        next.toList = below ++ [operation first second] := by
  unfold combine at combined
  split at combined
  · cases combined
  · rename_i first second rest popped
    obtain ⟨restCapacity, stackEq⟩ := popPair_eq_ok popped
    obtain ⟨_, nextCapacity, nextEq⟩ := push_eq_ok combined
    exact ⟨nextCapacity.trans restCapacity, rest.toList, first, second, stackEq, nextEq⟩

theorem popMany_eq_ok {stack next : OperandStack} {count : Nat} {taken : List Sample}
    (popped : stack.popMany count = .ok (taken, next)) :
    next.capacity = stack.capacity ∧ taken.length = count ∧
      stack.toList = next.toList ++ taken := by
  obtain ⟨capacity, cells, size, size_le, cells_le⟩ := stack
  by_cases enough : count ≤ size
  · simp only [popMany, enough, ↓reduceIte, Except.ok.injEq, Prod.mk.injEq] at popped
    obtain ⟨rfl, rfl⟩ := popped
    refine ⟨rfl, by simp; omega, ?_⟩
    have splitEq := List.take_append_drop (size - count) (cells.toList.take size)
    rw [List.take_take, Nat.min_eq_left (Nat.sub_le _ _), List.drop_take] at splitEq
    simp only [toList, Array.toList_extract, List.extract_eq_take_drop]
    exact splitEq.symm
  · simp [popMany, enough] at popped

/-- Too few values are all left where they are. -/
theorem popMany_eq_error_iff {stack : OperandStack} {count : Nat} {failure : StackFailure} :
    stack.popMany count = .error failure ↔
      stack.size < count ∧ failure = ⟨.underflow, stack⟩ := by
  obtain ⟨capacity, cells, size, size_le, cells_le⟩ := stack
  by_cases enough : count ≤ size
  · have notFewer : ¬ size < count := by omega
    simp [popMany, enough, notFewer]
  · have fewer : size < count := by omega
    simp [popMany, enough, fewer, eq_comm]

end OperandStack

end SignalPatch
