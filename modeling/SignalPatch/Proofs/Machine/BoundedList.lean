import Mathlib.Data.List.DropRight
import Mathlib.Data.List.ModifyLast
import SignalPatch.Proofs.Machine.LeftOvers

/-!
# The operand stack as a list of bounded length

Whatever is asked of an operand stack, in any order, is answered as by a list that has no
cells.  This includes the operations that fail, and what they leave behind.  What is left
over in the cells of the stack comes back in no answer.
-/

namespace SignalPatch

/-- The values that an operation hands out, in the order in which they were pushed, or its fault. -/
abbrev StackAnswer := Except StackFault (List Sample)

/-- What can be asked of an operand stack. -/
inductive StackOperation where
  | push (value : Sample)
  | pop
  | top
  | setTop (value : Sample)
  | mapTop (change : Sample → Sample)
  | popPair
  | popMany (count : Nat)
  | clear

namespace StackOperation

/-- How many values an operation asks for. -/
def need : StackOperation → Nat
  | push _ | clear => 0
  | pop | top | setTop _ | mapTop _ => 1
  | popPair => 2
  | popMany count => count

def isPush : StackOperation → Bool
  | push _ => true
  | _ => false

def takesPair : StackOperation → Bool
  | popPair => true
  | _ => false

theorem need_of_isPush {operation : StackOperation} (pushes : operation.isPush) :
    operation.need = 0 := by
  cases operation with
  | push | clear => rfl
  | pop | top | setTop | mapTop | popPair | popMany => cases pushes

variable {State Other : Type} (perform : State → StackOperation → StackAnswer × State)
  (length : State → Nat)

/-- The answers to some operations, each with the length behind it, and the state they lead to. -/
def run : List StackOperation → State → List (StackAnswer × Nat) × State
  | [], state => ([], state)
  | operation :: others, state =>
      let (answer, next) := perform state operation
      let (answers, last) := run others next
      ((answer, length next) :: answers, last)

variable {perform length}

/-- A view through which every operation is answered alike carries whole runs. -/
theorem run_view {performOther : Other → StackOperation → StackAnswer × Other}
    {lengthOther : Other → Nat} {view : State → Other}
    (performEq : ∀ state operation, performOther (view state) operation =
      ((perform state operation).1, view (perform state operation).2))
    (lengthEq : ∀ state, lengthOther (view state) = length state)
    (operations : List StackOperation) (state : State) :
    run performOther lengthOther operations (view state) =
      ((run perform length operations state).1, view (run perform length operations state).2) := by
  induction operations generalizing state with
  | nil => rfl
  | cons operation others ih => simp only [run, performEq, lengthEq, ih]

end StackOperation

/-- A list of at most so many values, the last of them on top. -/
@[ext]
structure BoundedList where
  capacity : Nat
  values : List Sample
  fits : values.length ≤ capacity

namespace BoundedList

def empty (capacity : Nat) : BoundedList :=
  ⟨capacity, [], Nat.zero_le _⟩

/-- Take the last values off a list. -/
def take (list : BoundedList) (count : Nat) : StackAnswer × BoundedList :=
  (.ok (list.values.rtake count),
    ⟨list.capacity, list.values.rdrop count, (List.length_take_le' _ _).trans list.fits⟩)

theorem length_modifyLast (change : Sample → Sample) (values : List Sample) :
    (values.modifyLast change).length = values.length := by
  rcases values.eq_nil_or_concat' with rfl | ⟨below, value, rfl⟩
  · rfl
  · rw [List.modifyLast_concat, List.length_append, List.length_append]
    rfl

/-- Replace the last value of a list by a function of it. -/
def modify (list : BoundedList) (change : Sample → Sample) : BoundedList :=
  ⟨list.capacity, list.values.modifyLast change, by rw [length_modifyLast]; exact list.fits⟩

/-- What an operation does to a list with as many values as it asks for. -/
def serve (list : BoundedList) : StackOperation → StackAnswer × BoundedList
  | .push value =>
      if room : list.values.length < list.capacity then
        (.ok [], ⟨list.capacity, list.values ++ [value], by rw [List.length_append]; exact room⟩)
      else (.error .overflow, list)
  | .pop => list.take 1
  | .top => (.ok (list.values.rtake 1), list)
  | .setTop value => (.ok [], list.modify (fun _ => value))
  | .mapTop change => (.ok [], list.modify change)
  | .popPair => list.take 2
  | .popMany count => list.take count
  | .clear => (.ok [], empty list.capacity)

def perform (list : BoundedList) (operation : StackOperation) : StackAnswer × BoundedList :=
  if operation.need ≤ list.values.length then list.serve operation
  -- a pair takes a lone value before it fails
  else (.error .underflow, if operation.takesPair then empty list.capacity else list)

def run (list : BoundedList) (operations : List StackOperation) :
    List (StackAnswer × Nat) × BoundedList :=
  StackOperation.run perform (fun list => list.values.length) operations list

variable {list : BoundedList} {operation : StackOperation}

theorem serve_push_of_full {value : Sample} (full : list.capacity ≤ list.values.length) :
    list.serve (.push value) = (.error .overflow, list) :=
  dif_neg (Nat.not_lt.mpr full)

theorem capacity_serve (list : BoundedList) (operation : StackOperation) :
    (list.serve operation).2.capacity = list.capacity := by
  cases operation with
  | push value =>
      rw [serve]
      split
      · rfl
      · rfl
  | pop | top | setTop | mapTop | popPair | popMany | clear => rfl

theorem serve_eq_error_iff {fault : StackFault} :
    (list.serve operation).1 = .error fault ↔
      fault = .overflow ∧ operation.isPush ∧ list.values.length = list.capacity := by
  have fits := list.fits
  cases operation with
  | push value =>
      rw [serve]
      split
      · simp; omega
      · have full : list.values.length = list.capacity := by omega
        simp [StackOperation.isPush, full, eq_comm]
  | pop | top | setTop | mapTop | popPair | popMany | clear =>
      simp [serve, take, StackOperation.isPush]

theorem capacity_perform (list : BoundedList) (operation : StackOperation) :
    (list.perform operation).2.capacity = list.capacity := by
  rw [perform]
  split
  · exact list.capacity_serve operation
  · split
    · rfl
    · rfl

theorem capacity_run (list : BoundedList) (operations : List StackOperation) :
    (list.run operations).2.capacity = list.capacity := by
  induction operations generalizing list with
  | nil => rfl
  | cons operation others ih => exact (ih _).trans (list.capacity_perform operation)

/-- An operation fails for want of room or of values. -/
theorem perform_eq_error_iff (list : BoundedList) (operation : StackOperation)
    (fault : StackFault) :
    (list.perform operation).1 = .error fault ↔
      fault = .overflow ∧ operation.isPush ∧ list.values.length = list.capacity ∨
        fault = .underflow ∧ list.values.length < operation.need := by
  by_cases enough : operation.need ≤ list.values.length
  · rw [perform, if_pos enough, serve_eq_error_iff]
    exact ⟨.inl, fun fails => fails.resolve_right (fun few => absurd few.2 (by omega))⟩
  · rw [perform, if_neg enough]
    constructor
    · rintro ⟨⟩
      exact .inr ⟨rfl, by omega⟩
    · rintro (⟨_, pushes, _⟩ | ⟨rfl, _⟩)
      · rw [StackOperation.need_of_isPush pushes] at enough
        omega
      · rfl

/-- Nothing but a pair takes a value before it fails. -/
theorem values_of_failed {fault : StackFault} (failed : (list.perform operation).1 = .error fault) :
    (list.perform operation).2.values = if operation.takesPair then [] else list.values := by
  by_cases enough : operation.need ≤ list.values.length
  · rw [perform, if_pos enough] at failed ⊢
    obtain ⟨_, pushes, full⟩ := serve_eq_error_iff.mp failed
    cases operation with
    | push value =>
        rw [serve_push_of_full full.ge]
        rfl
    | pop | top | setTop | mapTop | popPair | popMany | clear => cases pushes
  · rw [perform, if_neg enough]
    split
    · rfl
    · rfl

end BoundedList

namespace OperandStack

/-- The answer of an outcome, and the stack that it leaves. -/
def settle : Except StackFailure (List Sample × OperandStack) → StackAnswer × OperandStack
  | .ok (values, next) => (.ok values, next)
  | .error failure => (.error failure.fault, failure.left)

def perform (stack : OperandStack) : StackOperation → StackAnswer × OperandStack
  | .push value => settle ((stack.push value).map (fun next => ([], next)))
  | .pop => settle (stack.pop.map (fun (value, next) => ([value], next)))
  | .top => settle (stack.top.map (fun value => ([value], stack)))
  | .setTop value => settle ((stack.setTop value).map (fun next => ([], next)))
  | .mapTop change => settle ((stack.mapTop change).map (fun next => ([], next)))
  | .popPair =>
      settle (stack.popPair.map (fun ((first, second), next) => ([first, second], next)))
  | .popMany count => settle (stack.popMany count)
  | .clear => (.ok [], stack.clear)

def run (stack : OperandStack) (operations : List StackOperation) :
    List (StackAnswer × Nat) × OperandStack :=
  StackOperation.run perform size operations stack

/-- The values of a stack without its cells. -/
def boundedList (stack : OperandStack) : BoundedList :=
  ⟨stack.capacity, stack.toList, by rw [length_toList]; exact stack.size_le_capacity⟩

variable (stack : OperandStack)

theorem capacity_boundedList : stack.boundedList.capacity = stack.capacity :=
  rfl

theorem length_boundedList : stack.boundedList.values.length = stack.size :=
  stack.length_toList

theorem Alike.boundedList_eq {first second : OperandStack} (alike : first.Alike second) :
    second.boundedList = first.boundedList :=
  BoundedList.ext alike.capacity_eq alike.values_eq

variable {stack} {next : OperandStack}

theorem take_of_append {taken : List Sample} (capacityEq : next.capacity = stack.capacity)
    (valuesEq : stack.toList = next.toList ++ taken) :
    stack.boundedList.take taken.length = (.ok taken, next.boundedList) := by
  have takenEq : stack.toList.rtake taken.length = taken := by
    rw [valuesEq, List.rtake, List.length_append, Nat.add_sub_cancel, List.drop_left]
  have belowEq : stack.toList.rdrop taken.length = next.toList := by
    rw [valuesEq, List.rdrop, List.length_append, Nat.add_sub_cancel, List.take_left]
  exact Prod.ext (congrArg Except.ok takenEq) (BoundedList.ext capacityEq.symm belowEq)

/-- An operation that asks for too much fails, and takes what there is of a pair. -/
theorem perform_of_few {operation : StackOperation} (few : stack.size < operation.need) :
    (stack.perform operation).1 = .error .underflow ∧
      (stack.perform operation).2.boundedList =
        if operation.takesPair then .empty stack.capacity else stack.boundedList := by
  cases operation with
  | push | clear => exact absurd few (Nat.not_lt_zero _)
  | pop | top =>
      have popped : stack.pop = .error ⟨.underflow, stack⟩ :=
        pop_eq_error_iff.mpr ⟨Nat.lt_one_iff.mp few, rfl⟩
      simp only [perform, top_eq_map_pop, popped]
      exact ⟨rfl, rfl⟩
  | setTop | mapTop =>
      have mapped : ∀ change, stack.mapTop change = .error ⟨.underflow, stack⟩ :=
        fun change => mapTop_eq_error_iff.mpr ⟨Nat.lt_one_iff.mp few, rfl⟩
      simp only [perform, setTop, mapped]
      exact ⟨rfl, rfl⟩
  | popPair =>
      cases popped : stack.popPair with
      | ok result =>
          have sizeEq := size_of_append (popPair_eq_ok popped).2
          exact absurd few (by rw [sizeEq]; exact Nat.not_lt.mpr (Nat.le_add_left ..))
      | error failure =>
          obtain ⟨_, faultEq, capacityEq, leftEq⟩ := popPair_eq_error popped
          simp only [perform, popped]
          exact ⟨congrArg Except.error faultEq, BoundedList.ext capacityEq leftEq⟩
  | popMany count =>
      have popped : stack.popMany count = .error ⟨.underflow, stack⟩ :=
        popMany_eq_error_iff.mpr ⟨few, rfl⟩
      simp only [perform, popped]
      exact ⟨rfl, rfl⟩

theorem exists_pop (occupied : 1 ≤ stack.size) : ∃ value next, stack.pop = .ok (value, next) := by
  cases popped : stack.pop with
  | error failure =>
      have sizeEq := (pop_eq_error_iff.mp popped).1
      omega
  | ok result => exact ⟨result.1, result.2, rfl⟩

theorem serve_mapTop (change : Sample → Sample) (occupied : 1 ≤ stack.size) :
    (.ok [], stack.boundedList.modify change) =
      ((stack.perform (.mapTop change)).1, (stack.perform (.mapTop change)).2.boundedList) := by
  cases mapped : stack.mapTop change with
  | error failure =>
      have sizeEq := (mapTop_eq_error_iff.mp mapped).1
      omega
  | ok next =>
      obtain ⟨capacityEq, below, value, valuesEq, nextEq⟩ := mapTop_eq_ok mapped
      have changedEq : stack.toList.modifyLast change = next.toList := by
        rw [valuesEq, nextEq, List.modifyLast_concat]
      simp only [perform, mapped]
      exact congrArg _ (BoundedList.ext capacityEq.symm changedEq)

theorem serve_boundedList {operation : StackOperation} (enough : operation.need ≤ stack.size) :
    stack.boundedList.serve operation =
      ((stack.perform operation).1, (stack.perform operation).2.boundedList) := by
  cases operation with
  | push value =>
      cases pushed : stack.push value with
      | error failure =>
          obtain ⟨full, rfl⟩ := push_eq_error_iff.mp pushed
          simp only [perform, pushed]
          exact BoundedList.serve_push_of_full (by rwa [length_boundedList])
      | ok next =>
          obtain ⟨room, capacityEq, valuesEq⟩ := push_eq_ok pushed
          simp only [perform, pushed]
          refine (dif_pos (by rwa [length_boundedList])).trans ?_
          exact congrArg _ (BoundedList.ext capacityEq.symm valuesEq.symm)
  | pop =>
      obtain ⟨value, next, popped⟩ := exists_pop enough
      obtain ⟨capacityEq, valuesEq⟩ := pop_eq_ok popped
      simp only [perform, popped]
      exact take_of_append capacityEq valuesEq
  | top =>
      obtain ⟨value, next, popped⟩ := exists_pop enough
      obtain ⟨capacityEq, valuesEq⟩ := pop_eq_ok popped
      have takenEq := congrArg Prod.fst (take_of_append capacityEq valuesEq)
      simp only [perform, top_eq_map_pop, popped]
      exact congrArg (fun answer => (answer, stack.boundedList)) takenEq
  | setTop value => exact serve_mapTop (fun _ => value) enough
  | mapTop change => exact serve_mapTop change enough
  | popPair =>
      cases popped : stack.popPair with
      | error failure => exact absurd enough (Nat.not_le.mpr (popPair_eq_error popped).1)
      | ok result =>
          obtain ⟨capacityEq, valuesEq⟩ := popPair_eq_ok popped
          simp only [perform, popped]
          exact take_of_append capacityEq valuesEq
  | popMany count =>
      cases popped : stack.popMany count with
      | error failure => exact absurd enough (Nat.not_le.mpr (popMany_eq_error_iff.mp popped).1)
      | ok result =>
          obtain ⟨capacityEq, rfl, valuesEq⟩ := popMany_eq_ok popped
          simp only [perform, popped]
          exact take_of_append capacityEq valuesEq
  | clear => exact congrArg _ (BoundedList.ext rfl stack.toList_clear.symm)

/-- Every operation is answered as by the list of the values. -/
theorem perform_boundedList (stack : OperandStack) (operation : StackOperation) :
    stack.boundedList.perform operation =
      ((stack.perform operation).1, (stack.perform operation).2.boundedList) := by
  by_cases enough : operation.need ≤ stack.size
  · exact (if_pos (by rwa [length_boundedList])).trans (serve_boundedList enough)
  · obtain ⟨answerEq, leftEq⟩ := perform_of_few (Nat.lt_of_not_le enough)
    rw [answerEq, leftEq]
    exact if_neg (by rwa [length_boundedList])

theorem run_boundedList (stack : OperandStack) (operations : List StackOperation) :
    stack.boundedList.run operations =
      ((stack.run operations).1, (stack.run operations).2.boundedList) :=
  StackOperation.run_view perform_boundedList length_boundedList operations stack

/-- Values that are left over come back in no answer. -/
theorem Alike.run_eq {first second : OperandStack} (alike : first.Alike second)
    (operations : List StackOperation) : (second.run operations).1 = (first.run operations).1 := by
  have answers := second.run_boundedList operations
  rw [alike.boundedList_eq, first.run_boundedList operations] at answers
  exact (congrArg Prod.fst answers).symm

/--
Operations on an empty stack of any capacity are answered as by a list of at most so many
values.  The length behind each of them is that of the list, and so are the values at the
end.  There, as everywhere, an operation overflows exactly if it pushes onto as many values
as there is room for, and underflows exactly if there are fewer values than it asks for.
A failed one leaves the values as they are, but for a pair, which takes a lone value first.
What is left over in the cells makes no difference to any later answer.
-/
theorem refines_boundedList (capacity : Nat) (operations : List StackOperation) :
    let stack := ((withCapacity capacity).run operations).2
    (BoundedList.empty capacity).run operations =
        (((withCapacity capacity).run operations).1, stack.boundedList) ∧
      stack.capacity = capacity ∧
      (∀ operation fault,
        ((stack.perform operation).1 = .error fault ↔
          fault = .overflow ∧ operation.isPush ∧ stack.size = capacity ∨
            fault = .underflow ∧ stack.size < operation.need) ∧
        ((stack.perform operation).1 = .error fault →
          (stack.perform operation).2.toList =
            if operation.takesPair then [] else stack.toList)) ∧
      ∀ (other : OperandStack) (later : List StackOperation), stack.Alike other →
        (other.run later).1 = (stack.run later).1 := by
  intro stack
  have answersEq : (BoundedList.empty capacity).run operations =
      (((withCapacity capacity).run operations).1, stack.boundedList) :=
    (withCapacity capacity).run_boundedList operations
  have capacityEq : stack.capacity = capacity := by
    have kept := (BoundedList.empty capacity).capacity_run operations
    rwa [answersEq] at kept
  refine ⟨answersEq, capacityEq, ?_, fun other later alike => alike.run_eq later⟩
  intro operation fault
  have performEq := stack.perform_boundedList operation
  have answerEq := congrArg Prod.fst performEq
  have leftEq := congrArg (fun result => result.2.values) performEq
  constructor
  · have fails := stack.boundedList.perform_eq_error_iff operation fault
    rwa [answerEq, length_boundedList, capacity_boundedList, capacityEq] at fails
  · intro failed
    exact leftEq.symm.trans (BoundedList.values_of_failed (answerEq.trans failed))

/-- A lone value below two that were taken off, against one below two cells of zeros. -/
theorem refines_boundedList_leftOvers :
    let stack := ((withCapacity 3).run [.push ⟨1⟩, .push ⟨2⟩, .push ⟨3⟩, .popMany 2]).2
    let other : OperandStack := ⟨3, #[⟨1⟩, ⟨0⟩, ⟨0⟩], 1, by decide, by decide⟩
    let later : List StackOperation := [.push ⟨4⟩, .pop, .popPair, .popMany 1]
    (stack.perform .popPair).1 = .error .underflow ∧ (stack.perform .popPair).2.toList = [] ∧
      stack.cells ≠ other.cells ∧ stack.Alike other ∧
      (stack.run later).1 =
        [(.ok [], 2), (.ok [⟨4⟩], 1), (.error .underflow, 0), (.error .underflow, 0)] ∧
      (other.run later).1 = (stack.run later).1 := by
  intro stack other later
  have failed : (stack.perform .popPair).1 = .error .underflow := rfl
  have apart : stack.cells ≠ other.cells := by decide
  have alike : stack.Alike other := ⟨rfl, rfl⟩
  obtain ⟨_, _, failures, leftOver⟩ :=
    refines_boundedList 3 [.push ⟨1⟩, .push ⟨2⟩, .push ⟨3⟩, .popMany 2]
  exact ⟨failed, (failures .popPair .underflow).2 failed, apart, alike, rfl,
    leftOver other later alike⟩

end OperandStack

end SignalPatch
