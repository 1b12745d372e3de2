import SignalPatch.Proofs.Machine.Effects

/-!
# No index leaves the cells

The instructions are executed once more on a plain row of cells.  Nothing keeps a height
within the cells there, the coefficients of a filter are found by their places, and a place
that does not exist has no outcome whatsoever.  Such an execution always has an outcome,
which is that of the stack that carries its bounds, whatever is left over in the cells.
-/

namespace SignalPatch

/-- What is tried on plain cells: there is no outcome outside them, and else a result or a guard. -/
abbrev Attempt := ExceptT Guard Option

namespace Attempt

/-- The value at a place, if the place exists. -/
def fetch (values : List Sample) (place : Nat) : Attempt Sample :=
  values[place]?.map .ok

/-- So many values from a place on, if all their places exist. -/
def fetchMany (values : List Sample) (place count : Nat) : Attempt (List Sample) :=
  if place + count ≤ values.length then pure ((values.drop place).take count) else none

theorem fetch_append (below : List Sample) (value : Sample) (others : List Sample) :
    fetch (below ++ value :: others) below.length = pure value := by
  rw [fetch, List.getElem?_append_right (Nat.le_refl _), Nat.sub_self]
  rfl

theorem fetchMany_append (below values others : List Sample) :
    fetchMany (below ++ (values ++ others)) below.length values.length = pure values := by
  rw [fetchMany, if_pos (by simp only [List.length_append]; omega), List.drop_left,
    List.take_left]

end Attempt

/-- A row of cells, of which the first so many hold the values of a stack. -/
structure PlainStack where
  cells : List Sample
  height : Nat

namespace PlainStack

def push (stack : PlainStack) (value : Sample) : Attempt PlainStack :=
  if stack.height < stack.cells.length then
    pure ⟨stack.cells.set stack.height value, stack.height + 1⟩
  else throw (.stack .overflow)

def pop (stack : PlainStack) : Attempt (Sample × PlainStack) :=
  if stack.height = 0 then throw (.stack .underflow)
  else do
    let value ← Attempt.fetch stack.cells (stack.height - 1)
    pure (value, ⟨stack.cells, stack.height - 1⟩)

def popPair (stack : PlainStack) : Attempt ((Sample × Sample) × PlainStack) := do
  let (second, stack) ← stack.pop
  let (first, stack) ← stack.pop
  pure ((first, second), stack)

def popMany (stack : PlainStack) (count : Nat) : Attempt (List Sample × PlainStack) :=
  if stack.height < count then throw (.stack .underflow)
  else do
    let values ← Attempt.fetchMany stack.cells (stack.height - count) count
    pure (values, ⟨stack.cells, stack.height - count⟩)

def mapTop (change : Sample → Sample) (stack : PlainStack) : Attempt PlainStack :=
  if stack.height = 0 then throw (.stack .underflow)
  else do
    let value ← Attempt.fetch stack.cells (stack.height - 1)
    pure ⟨stack.cells.set (stack.height - 1) (change value), stack.height⟩

def apply (opcode : Opcode) (stack : PlainStack) : Attempt PlainStack :=
  if opcode.operands = 2 then do
    let ((first, second), stack) ← stack.popPair
    stack.push (opcode.value [first, second])
  else if opcode.results = 1 then stack.mapTop (fun operand => opcode.value [operand])
  else do
    let (_, stack) ← stack.pop
    pure stack

/-- The cells begin with the values of a stack; what is left over behind them is not compared. -/
structure Shows (plain : PlainStack) (stack : OperandStack) : Prop where
  length_eq : plain.cells.length = stack.capacity
  height_eq : plain.height = stack.size
  values_lead : stack.toList <+: plain.cells

variable {plain : PlainStack} {stack next : OperandStack}

theorem shows_clear {cells : List Sample} (lengthEq : cells.length = stack.capacity) :
    Shows ⟨cells, 0⟩ stack.clear :=
  ⟨lengthEq, rfl, by rw [OperandStack.toList_clear]; exact List.nil_prefix⟩

theorem Shows.push_of_ok (shows : plain.Shows stack) {value : Sample}
    (pushed : stack.push value = .ok next) :
    ∃ plainNext, plain.push value = pure plainNext ∧ plainNext.Shows next := by
  obtain ⟨cells, height⟩ := plain
  obtain ⟨lengthEq, rfl, leftOver, rfl⟩ := shows
  obtain ⟨room, capacityEq, valuesEq⟩ := OperandStack.push_eq_ok pushed
  rcases leftOver with _ | ⟨old, leftOver⟩
  · simp at lengthEq
    omega
  · refine ⟨_, if_pos (by simp), ?_, (OperandStack.size_of_push pushed).2.symm, leftOver, ?_⟩
    · simpa [capacityEq] using lengthEq
    · simp [valuesEq]

theorem Shows.push_of_error (shows : plain.Shows stack) {value : Sample}
    {failure : StackFailure} (failed : stack.push value = .error failure) :
    plain.push value = throw (.stack failure.fault) := by
  obtain ⟨full, rfl⟩ := OperandStack.push_eq_error_iff.mp failed
  exact if_neg (by rw [shows.height_eq, shows.length_eq]; omega)

theorem Shows.pop_of_ok (shows : plain.Shows stack) {value : Sample}
    (popped : stack.pop = .ok (value, next)) :
    ∃ plainNext, plain.pop = pure (value, plainNext) ∧ plainNext.Shows next := by
  obtain ⟨cells, height⟩ := plain
  obtain ⟨lengthEq, rfl, leftOver, rfl⟩ := shows
  obtain ⟨capacityEq, valuesEq⟩ := OperandStack.pop_eq_ok popped
  obtain ⟨_, sizeEq⟩ := OperandStack.size_of_pop popped
  have cellsEq : stack.toList ++ leftOver = next.toList ++ value :: leftOver := by
    rw [valuesEq, List.append_assoc]
    rfl
  have placeEq : stack.size - 1 = next.toList.length := by
    rw [OperandStack.length_toList]
    omega
  have nonempty : stack.size ≠ 0 := by omega
  refine ⟨⟨stack.toList ++ leftOver, stack.size - 1⟩, ?_, lengthEq.trans capacityEq.symm, ?_,
    value :: leftOver, cellsEq.symm⟩
  · simp only [pop, nonempty, ↓reduceIte, cellsEq, placeEq, Attempt.fetch_append, pure_bind]
  · exact placeEq.trans next.length_toList

theorem Shows.pop_of_error (shows : plain.Shows stack) {failure : StackFailure}
    (failed : stack.pop = .error failure) : plain.pop = throw (.stack failure.fault) := by
  obtain ⟨sizeEq, rfl⟩ := OperandStack.pop_eq_error_iff.mp failed
  exact if_pos (shows.height_eq.trans sizeEq)

theorem Shows.mapTop_of_ok (shows : plain.Shows stack) {change : Sample → Sample}
    (mapped : stack.mapTop change = .ok next) :
    ∃ plainNext, plain.mapTop change = pure plainNext ∧ plainNext.Shows next := by
  obtain ⟨cells, height⟩ := plain
  obtain ⟨lengthEq, rfl, leftOver, rfl⟩ := shows
  obtain ⟨capacityEq, below, value, valuesEq, nextEq⟩ := OperandStack.mapTop_eq_ok mapped
  obtain ⟨_, occupied, sizeEq⟩ := OperandStack.size_of_mapTop mapped
  have cellsEq : stack.toList ++ leftOver = below ++ value :: leftOver := by
    rw [valuesEq, List.append_assoc]
    rfl
  have placeEq : stack.size - 1 = below.length := by
    rw [← OperandStack.length_toList, valuesEq, List.length_append]
    rfl
  have setEq : (below ++ value :: leftOver).set below.length (change value) =
      next.toList ++ leftOver := by
    rw [nextEq, List.set_append_right _ _ (Nat.le_refl _), Nat.sub_self, List.append_assoc]
    rfl
  have nonempty : stack.size ≠ 0 := by omega
  refine ⟨⟨next.toList ++ leftOver, stack.size⟩, ?_, ?_, sizeEq.symm, leftOver, rfl⟩
  · simp only [mapTop, nonempty, ↓reduceIte, cellsEq, placeEq, Attempt.fetch_append,
      pure_bind, setEq]
  · rw [← setEq, List.length_set, ← cellsEq, capacityEq]
    exact lengthEq

theorem Shows.mapTop_of_error (shows : plain.Shows stack) {change : Sample → Sample}
    {failure : StackFailure} (failed : stack.mapTop change = .error failure) :
    plain.mapTop change = throw (.stack failure.fault) := by
  obtain ⟨sizeEq, rfl⟩ := OperandStack.mapTop_eq_error_iff.mp failed
  exact if_pos (shows.height_eq.trans sizeEq)

theorem Shows.popMany_of_ok (shows : plain.Shows stack) {count : Nat} {taken : List Sample}
    (popped : stack.popMany count = .ok (taken, next)) :
    ∃ plainNext, plain.popMany count = pure (taken, plainNext) ∧ plainNext.Shows next := by
  obtain ⟨cells, height⟩ := plain
  obtain ⟨lengthEq, rfl, leftOver, rfl⟩ := shows
  obtain ⟨capacityEq, rfl, valuesEq⟩ := OperandStack.popMany_eq_ok popped
  have cellsEq : stack.toList ++ leftOver = next.toList ++ (taken ++ leftOver) := by
    rw [valuesEq, List.append_assoc]
  have placeEq : stack.size - taken.length = next.toList.length := by
    rw [OperandStack.size_of_append valuesEq, Nat.add_sub_cancel, OperandStack.length_toList]
  have enough : ¬ stack.size < taken.length := by
    rw [OperandStack.size_of_append valuesEq]
    omega
  refine ⟨⟨stack.toList ++ leftOver, stack.size - taken.length⟩, ?_,
    lengthEq.trans capacityEq.symm, ?_, taken ++ leftOver, cellsEq.symm⟩
  · simp only [popMany, enough, ↓reduceIte, cellsEq, placeEq, Attempt.fetchMany_append,
      pure_bind]
  · exact placeEq.trans next.length_toList

theorem Shows.popMany_of_error (shows : plain.Shows stack) {count : Nat}
    {failure : StackFailure} (failed : stack.popMany count = .error failure) :
    plain.popMany count = throw (.stack failure.fault) := by
  obtain ⟨few, rfl⟩ := OperandStack.popMany_eq_error_iff.mp failed
  exact if_pos (by rw [shows.height_eq]; exact few)

/-- A step of a stack is met by the one on plain cells: both fail alike, or show the same values. -/
def Meets (plain : Attempt PlainStack) (outcome : Except StackFailure OperandStack) : Prop :=
  match outcome with
  | .ok next => ∃ plainNext, plain = pure plainNext ∧ plainNext.Shows next
  | .error failure => plain = throw (.stack failure.fault)

theorem Shows.push (shows : plain.Shows stack) (value : Sample) :
    Meets (plain.push value) (stack.push value) := by
  cases pushed : stack.push value with
  | ok next => exact shows.push_of_ok pushed
  | error failure => exact shows.push_of_error pushed

theorem Shows.mapTop (shows : plain.Shows stack) (change : Sample → Sample) :
    Meets (plain.mapTop change) (stack.mapTop change) := by
  cases mapped : stack.mapTop change with
  | ok next => exact shows.mapTop_of_ok mapped
  | error failure => exact shows.mapTop_of_error mapped

theorem Shows.combine (shows : plain.Shows stack) (operation : Sample → Sample → Sample) :
    Meets (do
      let ((first, second), rest) ← plain.popPair
      rest.push (operation first second)) (stack.combine operation) := by
  unfold OperandStack.combine OperandStack.popPair PlainStack.popPair
  cases lastPopped : stack.pop with
  | error failure =>
      rw [shows.pop_of_error lastPopped]
      rfl
  | ok last =>
      obtain ⟨second, middle⟩ := last
      obtain ⟨plainMiddle, lastEq, middleShows⟩ := shows.pop_of_ok lastPopped
      simp only [lastEq, pure_bind]
      cases firstPopped : middle.pop with
      | error failure =>
          rw [middleShows.pop_of_error firstPopped]
          rfl
      | ok pair =>
          obtain ⟨first, rest⟩ := pair
          obtain ⟨plainRest, firstEq, restShows⟩ := middleShows.pop_of_ok firstPopped
          simp only [firstEq, pure_bind]
          exact restShows.push _

theorem Shows.apply (shows : plain.Shows stack) (opcode : Opcode) :
    Meets (plain.apply opcode) (opcode.apply stack) := by
  cases opcode with
  | discard =>
      cases popped : stack.pop with
      | error failure =>
          simp only [Opcode.apply, popped]
          exact congrArg (fun attempt => attempt >>= _) (shows.pop_of_error popped)
      | ok result =>
          obtain ⟨value, next⟩ := result
          obtain ⟨plainNext, popEq, nextShows⟩ := shows.pop_of_ok popped
          simp only [Opcode.apply, popped]
          refine ⟨plainNext, ?_, nextShows⟩
          exact congrArg (fun attempt => attempt >>= _) popEq
  | add | subtract | multiply | divide | remainder | power | round => exact shows.combine _
  | negate | sine | cosine | sineOfTurns | cosineOfTurns | tangent | hyperbolicTangent
  | squareRoot | absolute | limit | fraction => exact shows.mapTop _

end PlainStack

/-- One step of a filter that finds its coefficients by their places. -/
def FilterMemory.attempt (memory : FilterMemory) (kind : FilterKind) (input : Sample)
    (coefficients : List Sample) : Attempt (Sample × FilterMemory) :=
  match kind with
  | .fir =>
      if coefficients.length ≤ maxTaps then pure (memory.fir input coefficients)
      else throw .filterArguments
  | .biquad =>
      if coefficients.length = 5 then do
        let b0 ← Attempt.fetch coefficients 0
        let b1 ← Attempt.fetch coefficients 1
        let b2 ← Attempt.fetch coefficients 2
        let a1 ← Attempt.fetch coefficients 3
        let a2 ← Attempt.fetch coefficients 4
        pure (memory.biquad input ⟨b0, b1, b2, a1, a2⟩)
      else throw .filterArguments

theorem FilterMemory.attempt_eq (memory : FilterMemory) (kind : FilterKind) (input : Sample)
    (coefficients : List Sample) :
    memory.attempt kind input coefficients =
      (FilterBank.stepMemory memory kind input coefficients).elim (throw .filterArguments) pure := by
  cases kind with
  | fir =>
      simp only [attempt, FilterBank.stepMemory]
      split
      · rfl
      · rfl
  | biquad =>
      rcases coefficients with
        _ | ⟨b0, _ | ⟨b1, _ | ⟨b2, _ | ⟨a1, _ | ⟨a2, _ | ⟨surplus, others⟩⟩⟩⟩⟩⟩
      · rfl
      · rfl
      · rfl
      · rfl
      · rfl
      · rfl
      · have many : ¬ (b0 :: b1 :: b2 :: a1 :: a2 :: surplus :: others).length = 5 := by simp
        simp only [attempt, many, ↓reduceIte]
        rfl

/-- A run of a filter on a call's arguments. -/
def FilterBank.attempt (bank : FilterBank) (site : Nat) (kind : FilterKind)
    (arguments : List Sample) : Attempt (Sample × FilterBank) :=
  match bank.sites[site]?, arguments with
  | some memory, input :: coefficients => do
      let (output, memory) ← memory.attempt kind input coefficients
      pure (output, ⟨bank.sites.setIfInBounds site memory⟩)
  | _, _ => throw .filterArguments

theorem FilterBank.attempt_of_some {bank after : FilterBank} {site : Nat} {kind : FilterKind}
    {arguments : List Sample} {output : Sample}
    (processed : bank.process site kind arguments = (some output, after)) :
    bank.attempt site kind arguments = pure (output, after) := by
  obtain ⟨sites⟩ := bank
  simp only [process] at processed
  split at processed
  · rename_i inside
    split at processed
    · cases processed
    · rename_i input coefficients
      split at processed
      · cases processed
      · rename_i memory stepped
        cases processed
        simp only [attempt, Array.getElem?_eq_getElem inside, FilterMemory.attempt_eq, stepped,
          Option.elim_some, pure_bind, Array.setIfInBounds, inside, ↓reduceDIte]
  · cases processed

theorem FilterBank.attempt_of_none {bank after : FilterBank} {site : Nat} {kind : FilterKind}
    {arguments : List Sample} (processed : bank.process site kind arguments = (none, after)) :
    bank.attempt site kind arguments = throw .filterArguments := by
  obtain ⟨sites⟩ := bank
  simp only [process] at processed
  split at processed
  · rename_i inside
    split at processed
    · simp only [attempt, Array.getElem?_eq_getElem inside]
    · rename_i input coefficients
      split at processed
      · rename_i stepped
        simp only [attempt, Array.getElem?_eq_getElem inside, FilterMemory.attempt_eq, stepped,
          Option.elim_none]
        rfl
      · cases processed
  · rename_i outside
    simp only [attempt, Array.getElem?_eq_none (Nat.le_of_not_lt outside)]

/-- What instructions read and change, with the operands in plain cells. -/
structure PlainMemory where
  table : VariableTable
  filters : FilterBank
  stack : PlainStack

namespace PlainMemory

def withStack (table : VariableTable) (filters : FilterBank) (attempt : Attempt PlainStack) :
    Attempt PlainMemory := do
  let stack ← attempt
  pure ⟨table, filters, stack⟩

def step : PlainMemory → Instruction → Attempt PlainMemory
  | ⟨table, filters, stack⟩, .operate opcode => withStack table filters (stack.apply opcode)
  | ⟨table, filters, stack⟩, .load value => withStack table filters (stack.push value)
  | ⟨table, filters, stack⟩, .read slot =>
      withStack table filters (stack.push ((table.get? slot).getD 0))
  | ⟨table, filters, stack⟩, .write slot => do
      let (value, stack) ← stack.pop
      pure ⟨table.set slot value, filters, stack⟩
  | ⟨table, filters, stack⟩, .filter kind count site => do
      let (arguments, stack) ← stack.popMany count
      let (output, filters) ← filters.attempt site kind arguments
      withStack table filters (stack.push output)

def run : List Instruction → PlainMemory → Attempt PlainMemory
  | [], memory => pure memory
  | instruction :: others, memory => do
      let next ← memory.step instruction
      run others next

structure Shows (plain : PlainMemory) (memory : Memory) : Prop where
  table_eq : plain.table = memory.table
  filters_eq : plain.filters = memory.filters
  stackShows : plain.stack.Shows memory.stack

/-- What is executed is met by what is tried on plain cells: both abort alike, or show the same. -/
def Meets (plain : Attempt PlainMemory) (outcome : Except Aborted Memory) : Prop :=
  match outcome with
  | .ok next => ∃ plainNext, plain = pure plainNext ∧ plainNext.Shows next
  | .error aborted => plain = throw aborted.guard

theorem Meets.ne_none {plain : Attempt PlainMemory} {outcome : Except Aborted Memory}
    (meets : Meets plain outcome) : plain ≠ none := by
  cases outcome with
  | ok next =>
      obtain ⟨plainNext, rfl, _⟩ := meets
      exact Option.some_ne_none _
  | error aborted =>
      cases meets
      exact Option.some_ne_none _

theorem meets_withStack {plain : Attempt PlainStack}
    {outcome : Except StackFailure OperandStack} (meets : PlainStack.Meets plain outcome)
    (table : VariableTable) (filters : FilterBank) :
    Meets (withStack table filters plain) (Memory.afterStack table filters outcome) := by
  cases outcome with
  | ok next =>
      obtain ⟨plainNext, rfl, nextShows⟩ := meets
      exact ⟨⟨table, filters, plainNext⟩, rfl, rfl, rfl, nextShows⟩
  | error failure =>
      cases meets
      rfl

variable {plain : PlainMemory} {memory : Memory}

theorem Shows.step (shows : plain.Shows memory) (instruction : Instruction) :
    Meets (plain.step instruction) (memory.step instruction) := by
  obtain ⟨table, filters, plainStack⟩ := plain
  obtain ⟨_, _, stack⟩ := memory
  obtain ⟨rfl, rfl, stackShows⟩ := shows
  cases instruction with
  | operate opcode => exact meets_withStack (stackShows.apply opcode) _ _
  | load value => exact meets_withStack (stackShows.push value) _ _
  | read slot => exact meets_withStack (stackShows.push _) _ _
  | write slot =>
      cases popped : stack.pop with
      | error failure =>
          simp only [PlainMemory.step, Memory.step, popped, stackShows.pop_of_error popped]
          rfl
      | ok result =>
          obtain ⟨value, next⟩ := result
          obtain ⟨plainNext, popEq, nextShows⟩ := stackShows.pop_of_ok popped
          simp only [PlainMemory.step, Memory.step, popped, popEq, pure_bind]
          exact ⟨_, rfl, rfl, rfl, nextShows⟩
  | filter kind count site =>
      cases popped : stack.popMany count with
      | error failure =>
          simp only [PlainMemory.step, Memory.step, popped, stackShows.popMany_of_error popped]
          rfl
      | ok result =>
          obtain ⟨arguments, next⟩ := result
          obtain ⟨plainNext, popEq, nextShows⟩ := stackShows.popMany_of_ok popped
          simp only [PlainMemory.step, Memory.step, popped, popEq, pure_bind]
          cases processed : filters.process site kind arguments with
          | mk output bank =>
              cases output with
              | none =>
                  rw [FilterBank.attempt_of_none processed]
                  rfl
              | some value =>
                  rw [FilterBank.attempt_of_some processed, pure_bind]
                  exact meets_withStack (nextShows.push value) _ _

/-- An execution on plain cells never asks for a place that does not exist. -/
theorem Shows.run (shows : plain.Shows memory) (code : List Instruction) :
    Meets (run code plain) (Memory.run code memory) := by
  induction code generalizing plain memory with
  | nil => exact ⟨plain, rfl, shows⟩
  | cons instruction others ih =>
      have stepMeets := shows.step instruction
      simp only [PlainMemory.run, Memory.run]
      cases stepped : memory.step instruction with
      | error aborted =>
          rw [stepped] at stepMeets
          rw [show plain.step instruction = throw aborted.guard from stepMeets]
          rfl
      | ok next =>
          rw [stepped] at stepMeets
          obtain ⟨plainNext, stepEq, nextShows⟩ := stepMeets
          rw [stepEq, pure_bind]
          exact ih nextShows

end PlainMemory

end SignalPatch
