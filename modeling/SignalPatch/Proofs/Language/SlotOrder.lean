import SignalPatch.Proofs.Language.Emission
import SignalPatch.Proofs.Program.TableChanges

/-!
# Slots in the order of first mention

The variables of a patch are the names that its text mentions, each once and in the
order in which they are mentioned first, and all of them start at zero.  Every
instruction that reads or writes a variable has the slot at which the table finds the
name that the text has there.
-/

namespace SignalPatch

/-- A variable is read or written, where it is known by a name or by a slot. -/
inductive Access (Key : Type) where
  | read (key : Key)
  | write (key : Key)
deriving DecidableEq

namespace Access

variable {First Second Third : Type}

def key : Access First → First
  | read key | write key => key

def map (change : First → Second) : Access First → Access Second
  | read key => read (change key)
  | write key => write (change key)

theorem key_map (change : First → Second) (access : Access First) :
    (access.map change).key = change access.key := by
  cases access <;> rfl

theorem map_map (second : Second → Third) (first : First → Second) (access : Access First) :
    (access.map first).map second = access.map (second ∘ first) := by
  cases access <;> rfl

theorem map_congr {first second : First → Second} {access : Access First}
    (same : first access.key = second access.key) : access.map first = access.map second := by
  cases access with
  | read key => exact congrArg read same
  | write key => exact congrArg write same

end Access

/-- The slot that an instruction reads or writes. -/
def Instruction.access? : Instruction → Option (Access Nat)
  | read slot => some (.read slot)
  | write slot => some (.write slot)
  | operate _ | load _ | filter .. => none

/-- The variables that a statement reads, in the order of the text, and the one it writes then. -/
def Statement.accesses : Statement → List (Access String)
  | assign target value _ => value.mentions.map .read ++ [.write target]
  | bare value => value.mentions.map .read

theorem Statement.key_mem_mentions {statement : Statement} {access : Access String}
    (member : access ∈ statement.accesses) : access.key ∈ statement.mentions := by
  cases statement with
  | assign target value position =>
      rcases List.mem_append.mp member with inValue | isTarget
      · obtain ⟨name, mentioned, rfl⟩ := List.mem_map.mp inValue
        exact List.mem_cons_of_mem _ mentioned
      · rw [List.mem_singleton.mp isTarget]
        exact List.mem_cons_self ..
  | bare value =>
      obtain ⟨name, mentioned, rfl⟩ := List.mem_map.mp member
      exact mentioned

theorem VariableTable.names_ofNames (mentioned : List String) :
    (ofNames mentioned).names = mentioned.eraseDups := by
  induction mentioned using List.reverseRecOn with
  | nil => rfl
  | append_singleton earlier name ih =>
      have internEq : (ofNames (earlier ++ [name])).names =
          ((ofNames earlier).intern name).2.names := by
        rw [ofNames, List.foldl_append]
        rfl
      rw [internEq, names_intern, ih, List.eraseDups_append]
      by_cases old : name ∈ earlier
      · simp [old, List.removeAll]
      · simp [old, List.removeAll, List.eraseDups_cons]

theorem VariableTable.get?_ofNames {mentioned : List String} {slot : Nat}
    (inside : slot < (ofNames mentioned).size) : (ofNames mentioned).get? slot = some 0 := by
  rw [VariableStore.size_eq_length_names] at inside
  rw [VariableStore.get?_eq_entries_getElem?, entries_ofNames]
  simp [inside]

section Accesses

variable (slot : String → Nat)

theorem Builtin.filterMap_access?_callCode (name : String) (count site : Nat) :
    (callCode name count site).filterMap Instruction.access? = [] := by
  unfold callCode
  cases ofName? name with
  | none => rfl
  | some function => cases function <;> rfl

mutual

/-- The code of an expression reads what the expression mentions, and in the same order. -/
theorem Expression.accesses_code (source : Expression) (site : Nat) :
    (source.code slot site).filterMap Instruction.access? =
      source.mentions.map (fun name => .read (slot name)) := by
  cases source with
  | literal value position => rfl
  | reference name position => rfl
  | negate operand position =>
      have operandEq := operand.accesses_code site
      simp [code, mentions, operandEq, Instruction.access?]
  | binary operator left right position =>
      have leftEq := left.accesses_code site
      have rightEq := right.accesses_code (site + left.sites)
      simp [code, mentions, leftEq, rightEq, Instruction.access?]
  | call name arguments position =>
      have argumentsEq := Expression.accesses_codeOfAll arguments site
      simp [code, mentions, argumentsEq, Builtin.filterMap_access?_callCode]

theorem Expression.accesses_codeOfAll (sources : List Expression) (site : Nat) :
    (codeOfAll slot site sources).filterMap Instruction.access? =
      (mentionsOfAll sources).map (fun name => .read (slot name)) := by
  cases sources with
  | nil => rfl
  | cons source others =>
      have sourceEq := source.accesses_code site
      have othersEq := Expression.accesses_codeOfAll others (site + source.sites)
      simp [codeOfAll, mentionsOfAll, sourceEq, othersEq]

end

theorem Statement.accesses_code (source : Statement) (site : Nat) :
    (source.code slot site).filterMap Instruction.access? =
      source.accesses.map (Access.map slot) := by
  have readsEq : (source.value.code slot site).filterMap Instruction.access? =
      (source.value.mentions.map Access.read).map (Access.map slot) := by
    rw [source.value.accesses_code slot site, List.map_map]
    rfl
  rw [code, List.filterMap_append, readsEq]
  cases source with
  | assign target value position =>
      rw [accesses, List.map_append]
      rfl
  | bare value => exact List.append_nil _

theorem Statement.accesses_codeOfAll (sources : List Statement) (site : Nat) :
    (codeOfAll slot site sources).filterMap Instruction.access? =
      (sources.flatMap accesses).map (Access.map slot) := by
  induction sources generalizing site with
  | nil => rfl
  | cons source others ih =>
      have sourceEq := source.accesses_code slot site
      simp [codeOfAll, sourceEq, ih]

end Accesses

/-- What the instructions of a patch read and write is found in its table by its name. -/
theorem Patch.accesses_of_ofStatements {statements : List Statement} {patch : Patch}
    (assembled : ofStatements statements = .ok patch) :
    (patch.program.instructions.filterMap Instruction.access?).map (Access.map some) =
      (statements.flatMap Statement.accesses).map (Access.map patch.table.find?) := by
  obtain ⟨_, codeEq, _, tableEq⟩ := ofStatements_eq_ok assembled
  rw [codeEq, Statement.accesses_codeOfAll, List.map_map]
  apply List.map_congr_left
  intro access member
  obtain ⟨statement, inStatements, inStatement⟩ := List.mem_flatMap.mp member
  have mentioned : access.key ∈ Statement.mentionsOfAll statements :=
    List.mem_flatMap.mpr ⟨statement, inStatements, Statement.key_mem_mentions inStatement⟩
  rw [Function.comp_apply, Access.map_map]
  apply Access.map_congr
  rw [tableEq, VariableTable.find?_of_mem ((VariableTable.mem_names_ofNames _ _).mpr mentioned)]
  rfl

namespace VariableTable

/--
The variables of a patch are the names that its statements mention, in the order of
their first mention, where the target of an assignment comes before its value.  They
are zero, and they are read and written at the slots where the table finds them.
This rests on what any sequence of mentions and settings makes of empty slots with an
empty index: no name is there twice, the index finds a name at a slot exactly if the
slot has that name, a name keeps its slot whatever is done later, and a setting changes
one value at most.  A table that goes through the same holds these slots and this index.
-/
theorem slots_by_first_mention :
    (∀ (statements : List Statement) (patch : Patch), Patch.ofStatements statements = .ok patch →
      patch.table.names = (Statement.mentionsOfAll statements).eraseDups ∧
      (∀ slot, slot < patch.table.size → patch.table.get? slot = some 0) ∧
      (patch.program.instructions.filterMap Instruction.access?).map (Access.map some) =
        (statements.flatMap Statement.accesses).map (Access.map patch.table.find?)) ∧
    ∀ changes : List TableChange,
      let store := VariableStore.empty.changeAll changes
      store.names.Nodup ∧
      (∀ name slot, store.find? name = some slot ↔ store.name? slot = some name) ∧
      (∀ name later,
        ((store.intern name).2.changeAll later).find? name = some (store.intern name).1) ∧
      (∀ slot value, (store.set slot value).names = store.names ∧
        (store.set slot value).index = store.index ∧
        ∀ other, other ≠ slot → (store.set slot value).get? other = store.get? other) ∧
      (empty.changeAll changes).toVariableStore = store := by
  constructor
  · intro statements patch assembled
    obtain ⟨_, _, _, tableEq⟩ := Patch.ofStatements_eq_ok assembled
    refine ⟨?_, fun slot inside => ?_, Patch.accesses_of_ofStatements assembled⟩
    · rw [tableEq, names_ofNames]
    · rw [tableEq] at inside ⊢
      exact get?_ofNames inside
  · intro changes store
    have consistent : store.Consistent :=
      VariableStore.consistent_changeAll VariableStore.consistent_empty changes
    refine ⟨consistent.nodup_names, consistent, fun name later => ?_, fun slot value => ?_,
      toVariableStore_changeAll empty changes⟩
    · exact VariableStore.find?_changeAll (store.find?_intern name) later
    · refine ⟨store.names_set slot value, rfl, fun other elsewhere => ?_⟩
      rw [store.get?_set]
      simp [elsewhere.symm]

/-- A target comes before its value, and a name that is mentioned again keeps its slot. -/
theorem slots_by_first_mention_twice :
    ∃ patch, Patch.ofStatements
        [.assign "y" (.reference "x" .start) .start,
          .assign "out" (.call "sin" [.binary .add (.reference "y" .start)
            (.reference "x" .start) .start] .start) .start] = .ok patch ∧
      patch.table.names = ["y", "x", "out"] ∧
      (patch.program.instructions.filterMap Instruction.access?).map (Access.map some) =
        [.read (some 1), .write (some 0), .read (some 0), .read (some 1), .write (some 2)] := by
  let patch : Patch :=
    ⟨⟨[.read 1, .write 0, .read 0, .read 1, .operate .add, .operate .sine, .write 2], 0⟩,
      .ofNames ["y", "x", "out"]⟩
  have assembled : Patch.ofStatements
      [.assign "y" (.reference "x" .start) .start,
        .assign "out" (.call "sin" [.binary .add (.reference "y" .start)
          (.reference "x" .start) .start] .start) .start] = .ok patch := by
    decide +kernel
  obtain ⟨namesEq, _, accessesEq⟩ := slots_by_first_mention.1 _ _ assembled
  exact ⟨patch, assembled, namesEq.trans (by decide), accessesEq.trans (by decide +kernel)⟩

end VariableTable

end SignalPatch
