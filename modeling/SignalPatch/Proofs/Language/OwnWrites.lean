import SignalPatch.Proofs.Language.GuardExactness

/-!
# What a patch writes

Only statements write, and each writes its target only, which is no variable that
is written from outside.  So the write instructions of a compiled patch are those
to the slots of names that the patch may write.
-/

namespace SignalPatch

theorem Builtin.write_notMem_callCode (name : String) (count site slot : Nat) :
    Instruction.write slot ∉ callCode name count site := by
  unfold callCode
  cases ofName? name with
  | none => exact List.not_mem_nil
  | some function =>
      intro member
      have same := List.mem_singleton.mp member
      unfold instruction at same
      split at same
      · cases same
      · cases same

namespace Expression

variable (slotOf : String → Nat)

mutual

/-- Expressions write nothing. -/
theorem write_notMem_code (slot : Nat) (source : Expression) (site : Nat) :
    Instruction.write slot ∉ source.code slotOf site := by
  cases source with
  | literal value position => simp [code]
  | reference name position => simp [code]
  | negate operand position =>
      have operandWrites := write_notMem_code slot operand site
      simp [code, operandWrites]
  | binary operator left right position =>
      have leftWrites := write_notMem_code slot left site
      have rightWrites := write_notMem_code slot right (site + left.sites)
      simp [code, leftWrites, rightWrites]
  | call name arguments position =>
      have argumentsWrite := write_notMem_codeOfAll slot arguments site
      have callWrites := Builtin.write_notMem_callCode name arguments.length
        (site + sitesOfAll arguments) slot
      simp [code, argumentsWrite, callWrites]

theorem write_notMem_codeOfAll (slot : Nat) (sources : List Expression) (site : Nat) :
    Instruction.write slot ∉ codeOfAll slotOf site sources := by
  cases sources with
  | nil => exact List.not_mem_nil
  | cons source others =>
      have sourceWrites := write_notMem_code slot source site
      have othersWrite := write_notMem_codeOfAll slot others (site + source.sites)
      simp [codeOfAll, sourceWrites, othersWrite]

end

end Expression

namespace Statement

variable {slotOf : String → Nat}

/-- A faultless statement writes its target only, which may be written. -/
theorem target_of_write_mem_code {slot site : Nat} {statement : Statement}
    (faultless : statement.firstFault? = none)
    (member : Instruction.write slot ∈ statement.code slotOf site) :
    ∃ target ∈ statement.mentions, Port.isReadOnly target = false ∧ slot = slotOf target := by
  rcases List.mem_append.mp member with inValue | inConsumption
  · exact absurd inValue (Expression.write_notMem_code slotOf slot statement.value site)
  · have same := List.mem_singleton.mp inConsumption
    cases statement with
    | bare value => cases same
    | assign target value position =>
        cases same
        refine ⟨target, List.mem_cons_self .., ?_, rfl⟩
        cases readOnly : Port.isReadOnly target with
        | false => rfl
        | true => simp [firstFault?, readOnly] at faultless

theorem target_of_write_mem_codeOfAll {slot : Nat} {statements : List Statement} {site : Nat}
    (faultless : firstFaultOfAll? statements = none)
    (member : Instruction.write slot ∈ codeOfAll slotOf site statements) :
    ∃ target ∈ mentionsOfAll statements,
      Port.isReadOnly target = false ∧ slot = slotOf target := by
  induction statements generalizing site with
  | nil => cases member
  | cons statement others ih =>
      simp only [firstFaultOfAll?, Option.or_eq_none_iff] at faultless
      simp only [mentionsOfAll, List.flatMap_cons, List.mem_append]
      rcases List.mem_append.mp member with here | later
      · obtain ⟨target, mentioned, writable, slotEq⟩ :=
          target_of_write_mem_code faultless.1 here
        exact ⟨target, Or.inl mentioned, writable, slotEq⟩
      · obtain ⟨target, mentioned, writable, slotEq⟩ := ih faultless.2 later
        exact ⟨target, Or.inr mentioned, writable, slotEq⟩

end Statement

/-- Whether all slots that a patch writes belong to names that it may write. -/
def Patch.WritesOwnOnly (patch : Patch) : Prop :=
  ∀ slot, .write slot ∈ patch.program.instructions →
    ∃ target ∈ patch.table.names,
      Port.isReadOnly target = false ∧ slot = patch.table.names.idxOf target

theorem Patch.writesOwnOnly_of_compile {text : String} {patch : Patch}
    (compiled : compile text = .ok patch) : patch.WritesOwnOnly := by
  obtain ⟨statements, _, assembled⟩ := compile_eq_ok compiled
  obtain ⟨faultless, codeEq, _, tableEq⟩ := Patch.ofStatements_eq_ok assembled
  intro slot member
  rw [codeEq] at member
  obtain ⟨target, mentioned, writable, slotEq⟩ :=
    Statement.target_of_write_mem_codeOfAll faultless member
  refine ⟨target, ?_, writable, ?_⟩
  · rw [tableEq]
    exact (VariableTable.mem_names_ofNames _ _).mpr mentioned
  · rw [tableEq]
    exact slotEq

end SignalPatch
