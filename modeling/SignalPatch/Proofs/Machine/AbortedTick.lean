import SignalPatch.Language.Compile
import SignalPatch.Proofs.Machine.Effects
import SignalPatch.Proofs.Machine.Tick

/-!
# What an aborted tick leaves behind

An aborted pass is not undone.  Behind an aborted tick every variable holds what
the completed writes of the pass put into it last, and every filter memory is the
one that its last completed step left.
-/

namespace SignalPatch

/-- The last of the changes that were made at an index. -/
def lastChange {Value : Type} : List (Nat × Value) → Nat → Option Value
  | [], _ => none
  | (place, value) :: later, index =>
      (lastChange later index).or (if place = index then some value else none)

namespace VariableTable

def setAll (table : VariableTable) (changes : List (Nat × Sample)) : VariableTable :=
  changes.foldl (fun table change => table.set change.1 change.2) table

theorem setAll_append (table : VariableTable) (first second : List (Nat × Sample)) :
    table.setAll (first ++ second) = (table.setAll first).setAll second :=
  List.foldl_append

/-- A slot holds what was put into it last. -/
theorem get?_setAll (table : VariableTable) (changes : List (Nat × Sample)) (index : Nat) :
    (table.setAll changes).get? index =
      (table.get? index).map (fun old => (lastChange changes index).getD old) := by
  induction changes generalizing table with
  | nil => simp [setAll, lastChange]
  | cons change later ih =>
      obtain ⟨slot, value⟩ := change
      rw [setAll, List.foldl_cons, ← setAll, ih, get?_set, Option.map_map]
      congr 1
      funext old
      simp only [Function.comp_apply, lastChange]
      cases lastChange later index with
      | some latest => rfl
      | none =>
          split
          · rfl
          · rfl

end VariableTable

namespace FilterBank

def setAll (bank : FilterBank) (changes : List (Nat × FilterMemory)) : FilterBank :=
  ⟨changes.foldl (fun sites change => sites.setIfInBounds change.1 change.2) bank.sites⟩

theorem setAll_append (bank : FilterBank) (first second : List (Nat × FilterMemory)) :
    bank.setAll (first ++ second) = (bank.setAll first).setAll second :=
  congrArg FilterBank.mk List.foldl_append

theorem getElem?_setAll (bank : FilterBank) (changes : List (Nat × FilterMemory))
    (index : Nat) :
    (bank.setAll changes).sites[index]? =
      (bank.sites[index]?).map (fun old => (lastChange changes index).getD old) := by
  obtain ⟨sites⟩ := bank
  induction changes generalizing sites with
  | nil => simp [setAll, lastChange]
  | cons change later ih =>
      obtain ⟨site, memory⟩ := change
      have laterEq := ih (sites.setIfInBounds site memory)
      simp only [setAll, List.foldl_cons] at laterEq ⊢
      rw [laterEq, Array.getElem?_setIfInBounds]
      simp only [lastChange]
      by_cases same : site = index
      · subst same
        by_cases inside : site < sites.size
        · cases lastChange later site <;> simp [inside]
        · simp [inside]
      · simp [same]

theorem setAll_of_process {bank after : FilterBank} {site : Nat} {kind : FilterKind}
    {arguments : List Sample} {output : Sample}
    (processed : bank.process site kind arguments = (some output, after)) :
    after = bank.setAll ((after.sites[site]?).toList.map (fun memory => (site, memory))) := by
  obtain ⟨sites⟩ := bank
  simp only [process] at processed
  split at processed
  · rename_i inside
    split at processed
    · cases processed
    · split at processed
      · cases processed
      · rename_i memory stepped
        cases processed
        simp [setAll, inside, Array.setIfInBounds]
  · cases processed

theorem eq_of_process_none {bank after : FilterBank} {site : Nat} {kind : FilterKind}
    {arguments : List Sample} (processed : bank.process site kind arguments = (none, after)) :
    after = bank := by
  obtain ⟨sites⟩ := bank
  simp only [process] at processed
  split at processed
  · split at processed
    · cases processed
      rfl
    · split at processed
      · cases processed
        rfl
      · cases processed
  · cases processed
    rfl

end FilterBank

namespace Memory

/-- The write that an instruction makes if it is completed. -/
def written (memory : Memory) : Instruction → List (Nat × Sample)
  | .write slot => memory.stack.toList.getLast?.toList.map (fun value => (slot, value))
  | _ => []

def remembered (after : Memory) : Instruction → List (Nat × FilterMemory)
  | .filter _ _ site => (after.filters.sites[site]?).toList.map (fun memory => (site, memory))
  | _ => []

/-- The writes that a run completes, in order. -/
def writes : List Instruction → Memory → List (Nat × Sample)
  | [], _ => []
  | instruction :: others, memory =>
      match memory.step instruction with
      | .error _ => []
      | .ok next => memory.written instruction ++ writes others next

def filterSteps : List Instruction → Memory → List (Nat × FilterMemory)
  | [], _ => []
  | instruction :: others, memory =>
      match memory.step instruction with
      | .error _ => []
      | .ok next => next.remembered instruction ++ filterSteps others next

/-- A completed instruction makes its write and leaves its filter memory, and no more. -/
theorem changes_of_completed {memory next : Memory} {instruction : Instruction}
    (stepped : memory.step instruction = .ok next) :
    next.table = memory.table.setAll (memory.written instruction) ∧
      next.filters = memory.filters.setAll (next.remembered instruction) := by
  cases instruction with
  | load value =>
      have pushed := pushed_of_load stepped
      exact ⟨pushed.table_eq, pushed.filters_eq⟩
  | read slot =>
      have pushed := pushed_of_read stepped
      exact ⟨pushed.table_eq, pushed.filters_eq⟩
  | operate opcode => exact (step_operate_eq_ok stepped).2
  | write slot =>
      obtain ⟨value, stackEq, tableEq, filtersEq⟩ := step_write_eq_ok stepped
      refine ⟨?_, filtersEq⟩
      simp only [written, stackEq, List.getLast?_concat]
      exact tableEq
  | filter kind count site =>
      obtain ⟨below, arguments, output, _, _, tableEq, processed, _⟩ :=
        step_filter_eq_ok stepped
      exact ⟨tableEq, FilterBank.setAll_of_process processed⟩

private theorem changes_of_afterStack {table : VariableTable} {filters : FilterBank}
    {outcome : Except StackFailure OperandStack} {aborted : Aborted}
    (failed : afterStack table filters outcome = .error aborted) :
    aborted.left.table = table ∧ aborted.left.filters = filters := by
  cases outcome with
  | ok stack => cases failed
  | error failure =>
      cases failed
      exact ⟨rfl, rfl⟩

/-- An instruction that is aborted makes no write and leaves all filter memories. -/
theorem changes_of_aborted {memory : Memory} {instruction : Instruction} {aborted : Aborted}
    (stepped : memory.step instruction = .error aborted) :
    aborted.left.table = memory.table ∧ aborted.left.filters = memory.filters := by
  obtain ⟨table, filters, stack⟩ := memory
  cases instruction with
  | load value | read slot | operate opcode => exact changes_of_afterStack stepped
  | write slot =>
      simp only [step] at stepped
      split at stepped
      · cases stepped
        exact ⟨rfl, rfl⟩
      · cases stepped
  | filter kind count site =>
      simp only [step] at stepped
      split at stepped
      · cases stepped
        exact ⟨rfl, rfl⟩
      · rename_i arguments rest popped
        split at stepped
        · rename_i bank processed
          cases stepped
          exact ⟨rfl, FilterBank.eq_of_process_none processed⟩
        · rename_i output bank processed
          -- the output has room, so this push is never what fails
          have room := room_of_process popped processed
          cases pushed : rest.push output with
          | ok next =>
              rw [pushed] at stepped
              cases stepped
          | error failure =>
              obtain ⟨full, _⟩ := OperandStack.push_eq_error_iff.mp pushed
              omega

/-- Behind a run, also an aborted one, its completed changes stand. -/
theorem changes_of_run (code : List Instruction) (memory : Memory) :
    (behind (run code memory)).table = memory.table.setAll (writes code memory) ∧
      (behind (run code memory)).filters = memory.filters.setAll (filterSteps code memory) := by
  induction code generalizing memory with
  | nil => exact ⟨rfl, rfl⟩
  | cons instruction others ih =>
      simp only [run, writes, filterSteps]
      cases stepped : memory.step instruction with
      | error aborted => exact changes_of_aborted stepped
      | ok next =>
          obtain ⟨tableEq, filtersEq⟩ := changes_of_completed stepped
          obtain ⟨othersTable, othersFilters⟩ := ih next
          simp only [othersTable, othersFilters]
          rw [tableEq, filtersEq, VariableTable.setAll_append, FilterBank.setAll_append]
          exact ⟨rfl, rfl⟩

end Memory

namespace Ports

def inputSlots (ports : Ports) : List Nat :=
  ports.input.toList ++ ports.inputLeft.toList ++ ports.inputRight.toList

theorem get?_assign {port : Option Nat} {slot : Nat} (other : slot ∉ port.toList)
    (table : VariableTable) (value : Sample) :
    (assign table port value).get? slot = table.get? slot := by
  cases port with
  | none => rfl
  | some place =>
      have different : place ≠ slot := by
        rintro rfl
        exact other (List.mem_singleton_self _)
      simp [assign, VariableTable.get?_set, different]

theorem get?_bindInputs {ports : Ports} {slot : Nat} (other : slot ∉ ports.inputSlots)
    (table : VariableTable) (frame : Frame) :
    (ports.bindInputs table frame).get? slot = table.get? slot := by
  simp only [inputSlots, List.mem_append, not_or] at other
  obtain ⟨⟨notMean, notLeft⟩, notRight⟩ := other
  rw [bindInputs, get?_assign notRight, get?_assign notLeft, get?_assign notMean]

end Ports

namespace Machine

/-- No variable but those bound to the input, and no filter memory, differs behind a tick. -/
structure Undisturbed (before after : Machine) : Prop where
  variables_eq : ∀ slot, slot ∉ before.ports.inputSlots →
    after.table.get? slot = before.table.get? slot
  memories_eq : ∀ site : Nat,
    after.memory.filters.sites[site]? = before.memory.filters.sites[site]?

private theorem map_getD_eq_self_iff {Value : Type} {old? last? : Option Value} :
    old?.map (fun old => last?.getD old) = old? ↔
      ∀ old latest, old? = some old → last? = some latest → latest = old := by
  cases old? <;> cases last? <;> simp

/-- An aborted tick leaves what the completed changes of its pass make of the memory. -/
theorem memory_of_abort {machine : Machine} {live : Frame} {guard : Guard}
    (aborts : machine.abort? live = some guard) :
    (machine.tick live).2.table = (machine.bound live).table.setAll
        (Memory.writes machine.program.instructions (machine.bound live)) ∧
      (machine.tick live).2.memory.filters = machine.memory.filters.setAll
        (Memory.filterSteps machine.program.instructions (machine.bound live)) := by
  have active : machine.isIdle = false := by
    cases idle : machine.isIdle with
    | true => simp [abort?, idle] at aborts
    | false => rfl
  rw [table, memory_tick, active]
  exact Memory.changes_of_run machine.program.instructions (machine.bound live)

/--
An aborted tick is silent, is counted, and leaves the program, the ports and the
run state alone.  It leaves the variables and the filter memories alone exactly
when the writes and filter calls that were completed before the abort happen to
put back what was there: nothing undoes them.
-/
theorem aborted_tick {machine : Machine} {live : Frame} {guard : Guard}
    (aborts : machine.abort? live = some guard) :
    ((machine.tick live).1 = .silence ∧
      (machine.tick live).2.guardTrips = machine.guardTrips + 1 ∧
      (machine.tick live).2.program = machine.program ∧
      (machine.tick live).2.ports = machine.ports ∧
      (machine.tick live).2.runState = machine.runState) ∧
    (machine.Undisturbed (machine.tick live).2 ↔
      (∀ slot, slot ∉ machine.ports.inputSlots → ∀ old latest,
        machine.table.get? slot = some old →
        lastChange (Memory.writes machine.program.instructions (machine.bound live)) slot =
          some latest →
        latest = old) ∧
      (∀ (site : Nat) (old latest : FilterMemory),
        machine.memory.filters.sites[site]? = some old →
        lastChange (Memory.filterSteps machine.program.instructions (machine.bound live)) site =
          some latest →
        latest = old)) := by
  obtain ⟨silent, counted⟩ := tick_of_abort aborts
  obtain ⟨tableEq, filtersEq⟩ := memory_of_abort aborts
  refine ⟨⟨silent, counted, machine.tick_keeps live⟩, ?_⟩
  have variableEq : ∀ slot, slot ∉ machine.ports.inputSlots →
      (machine.tick live).2.table.get? slot = (machine.table.get? slot).map (fun old =>
        (lastChange (Memory.writes machine.program.instructions (machine.bound live))
          slot).getD old) := by
    intro slot other
    rw [tableEq, VariableTable.get?_setAll]
    exact congrArg (Option.map _) (Ports.get?_bindInputs other _ _)
  constructor
  · rintro ⟨variablesEq, memoriesEq⟩
    refine ⟨?_, ?_⟩
    · intro slot other
      apply map_getD_eq_self_iff.mp
      rw [← variableEq slot other]
      exact variablesEq slot other
    · intro site
      apply map_getD_eq_self_iff.mp
      rw [← FilterBank.getElem?_setAll, ← filtersEq]
      exact memoriesEq site
  · rintro ⟨writesRestore, stepsRestore⟩
    refine ⟨?_, ?_⟩
    · intro slot other
      rw [variableEq slot other]
      exact map_getD_eq_self_iff.mpr (writesRestore slot other)
    · intro site
      rw [filtersEq, FilterBank.getElem?_setAll]
      exact map_getD_eq_self_iff.mpr (stepsRestore site)

def twoCells : EngineConfig :=
  { EngineConfig.standard with stackCapacity := 2 }

def threeCellSum : Patch :=
  ⟨⟨[.load 1, .load 1, .load 1, .operate .add, .operate .add, .write 0], 0⟩, .ofNames ["out"]⟩

/-- A sum that overflows before its only write disturbs nothing. -/
theorem aborted_tick_of_sum :
    compile "out = 1 + (1 + 1)" = .ok threeCellSum ∧
      (started twoCells threeCellSum).abort? .silence = some (.stack .overflow) ∧
      (started twoCells threeCellSum).Undisturbed
        ((started twoCells threeCellSum).tick .silence).2 := by
  have aborts : (started twoCells threeCellSum).abort? .silence = some (.stack .overflow) := by
    decide +kernel
  refine ⟨by decide +kernel, aborts, (aborted_tick aborts).2.mpr ⟨?_, ?_⟩⟩
  · intro slot _ old latest _ written
    cases written
  · intro site old latest _ remembered
    cases remembered

def overflowingCounter : Patch :=
  ⟨⟨[.read 0, .load 1, .operate .add, .write 0, .load 1, .load 1, .load 1, .operate .add,
    .operate .add, .write 1], 0⟩, .ofNames ["n", "out"]⟩

/-- A counter is advanced by a tick that overflows behind it. -/
theorem aborted_tick_disturbs_counter :
    compile "n = n + 1\nout = 1 + (1 + 1)" = .ok overflowingCounter ∧
      Reachable twoCells (started twoCells overflowingCounter) ∧
      (started twoCells overflowingCounter).Runs overflowingCounter.program ∧
      (started twoCells overflowingCounter).abort? .silence = some (.stack .overflow) ∧
      ¬ (started twoCells overflowingCounter).Undisturbed
        ((started twoCells overflowingCounter).tick .silence).2 := by
  refine ⟨by decide +kernel, reachable_started _ _, runs_started _ _, by decide +kernel, ?_⟩
  intro undisturbed
  have kept := undisturbed.variables_eq 0 (by decide +kernel)
  exact absurd kept (by decide +kernel)

end Machine

end SignalPatch
