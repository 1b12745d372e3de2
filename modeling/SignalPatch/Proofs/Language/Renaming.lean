import SignalPatch.Proofs.Language.JoinedPatches
import SignalPatch.Proofs.Machine.OtherNames

/-!
# The names of variables do not matter

Call the variables of a patch otherwise: keep different names different, keep the names
of the ports, and take no such name for another variable.  The statements are compiled
to the same instructions, the table has the new names in the place of the old ones, and
whatever is done with a machine that has loaded the patch, it answers as before.
-/

namespace SignalPatch

/-- A renaming that keeps mentioned names apart, and leaves the ports to those who have them. -/
structure FairRenaming (rename : String → String) (mentioned : List String) : Prop where
  apart : ∀ first ∈ mentioned, ∀ second ∈ mentioned,
    rename first = rename second → first = second
  port_eq : ∀ name ∈ mentioned, Port.isReserved name = true → rename name = name
  noPort : ∀ name ∈ mentioned, Port.isReserved name = false →
    Port.isReserved (rename name) = false

namespace FairRenaming

variable {rename : String → String} {mentioned : List String}

theorem mono (fair : FairRenaming rename mentioned) {fewer : List String}
    (subset : fewer ⊆ mentioned) : FairRenaming rename fewer :=
  ⟨fun first inFirst second inSecond => fair.apart first (subset inFirst) second (subset inSecond),
    fun name member => fair.port_eq name (subset member),
    fun name member => fair.noPort name (subset member)⟩

theorem ofNames (fair : FairRenaming rename mentioned) :
    FairRenaming rename (VariableTable.ofNames mentioned).names :=
  fair.mono (fun name member => (VariableTable.mem_names_ofNames mentioned name).mp member)

theorem isReadOnly_eq (fair : FairRenaming rename mentioned) {name : String}
    (member : name ∈ mentioned) : Port.isReadOnly (rename name) = Port.isReadOnly name := by
  cases reserved : Port.isReserved name with
  | true => rw [fair.port_eq name member reserved]
  | false =>
      have reservedBehind := fair.noPort name member reserved
      simp only [Port.isReserved, Bool.or_eq_false_iff] at reserved reservedBehind
      rw [reserved.1.1.1, reservedBehind.1.1.1]

end FairRenaming

section Trees

variable (rename : String → String)

namespace Expression

mutual

/-- The expression in which every variable is called otherwise, but no function is. -/
def renamed : Expression → Expression
  | literal value position => literal value position
  | reference name position => reference (rename name) position
  | negate operand position => negate operand.renamed position
  | binary operator left right position => binary operator left.renamed right.renamed position
  | call name arguments position => call name (renamedAll arguments) position

def renamedAll : List Expression → List Expression
  | [] => []
  | expression :: others => expression.renamed :: renamedAll others

end

theorem position_renamed (source : Expression) :
    (source.renamed rename).position = source.position := by
  cases source <;> rfl

theorem map_position_renamedAll (sources : List Expression) :
    (renamedAll rename sources).map position = sources.map position := by
  induction sources with
  | nil => rfl
  | cons source others ih =>
      rw [renamedAll, List.map_cons, List.map_cons, ih, position_renamed]

theorem length_renamedAll (sources : List Expression) :
    (renamedAll rename sources).length = sources.length := by
  have lengthsEq := congrArg List.length (map_position_renamedAll rename sources)
  rwa [List.length_map, List.length_map] at lengthsEq

mutual

theorem mentions_renamed (source : Expression) :
    (source.renamed rename).mentions = source.mentions.map rename := by
  cases source with
  | literal | reference => rfl
  | negate operand position => exact operand.mentions_renamed
  | binary operator left right position =>
      simp [renamed, mentions, left.mentions_renamed, right.mentions_renamed]
  | call name arguments position => exact mentionsOfAll_renamedAll arguments

theorem mentionsOfAll_renamedAll (sources : List Expression) :
    mentionsOfAll (renamedAll rename sources) = (mentionsOfAll sources).map rename := by
  cases sources with
  | nil => rfl
  | cons source others =>
      simp [renamedAll, mentionsOfAll, source.mentions_renamed, mentionsOfAll_renamedAll others]

end

mutual

theorem sites_renamed (source : Expression) : (source.renamed rename).sites = source.sites := by
  cases source with
  | literal | reference => rfl
  | negate operand position => exact operand.sites_renamed
  | binary operator left right position =>
      simp [renamed, sites, left.sites_renamed, right.sites_renamed]
  | call name arguments position =>
      simp [renamed, sites, sitesOfAll_renamedAll arguments]

theorem sitesOfAll_renamedAll (sources : List Expression) :
    sitesOfAll (renamedAll rename sources) = sitesOfAll sources := by
  cases sources with
  | nil => rfl
  | cons source others =>
      simp [renamedAll, sitesOfAll, source.sites_renamed, sitesOfAll_renamedAll others]

end

mutual

/-- The code is that of the old names, where each has the slot of its new name. -/
theorem code_renamed (slot : String → Nat) (site : Nat) (source : Expression) :
    (source.renamed rename).code slot site = source.code (slot ∘ rename) site := by
  cases source with
  | literal | reference => rfl
  | negate operand position => simp [renamed, code, operand.code_renamed slot site]
  | binary operator left right position =>
      simp [renamed, code, sites_renamed, left.code_renamed slot site,
        right.code_renamed slot (site + left.sites)]
  | call name arguments position =>
      simp [renamed, code, sitesOfAll_renamedAll, length_renamedAll,
        codeOfAll_renamedAll slot site arguments]

theorem codeOfAll_renamedAll (slot : String → Nat) (site : Nat) (sources : List Expression) :
    codeOfAll slot site (renamedAll rename sources) =
      codeOfAll (slot ∘ rename) site sources := by
  cases sources with
  | nil => rfl
  | cons source others =>
      simp [renamedAll, codeOfAll, sites_renamed, source.code_renamed slot site,
        codeOfAll_renamedAll slot (site + source.sites) others]

end

theorem resolveCall_renamedAll (name : String) (arguments : List Expression)
    (position : Position) :
    Assembly.resolveCall name (renamedAll rename arguments) position =
      Assembly.resolveCall name arguments position := by
  have surplusEq : ∀ index : Nat,
      (renamedAll rename arguments)[index]?.elim position Expression.position =
        arguments[index]?.elim position Expression.position := by
    intro index
    have positionEq := congrArg (fun positions => positions[index]?.elim position id)
      (map_position_renamedAll rename arguments)
    simpa using positionEq
  simp only [Assembly.resolveCall, length_renamedAll, surplusEq]

mutual

theorem firstFault?_renamed (source : Expression) :
    (source.renamed rename).firstFault? = source.firstFault? := by
  cases source with
  | literal | reference => rfl
  | negate operand position => exact operand.firstFault?_renamed
  | binary operator left right position =>
      simp [renamed, firstFault?, left.firstFault?_renamed, right.firstFault?_renamed]
  | call name arguments position =>
      simp [renamed, firstFault?, resolveCall_renamedAll, firstFaultOfAll?_renamedAll arguments]

theorem firstFaultOfAll?_renamedAll (sources : List Expression) :
    firstFaultOfAll? (renamedAll rename sources) = firstFaultOfAll? sources := by
  cases sources with
  | nil => rfl
  | cons source others =>
      simp [renamedAll, firstFaultOfAll?, source.firstFault?_renamed,
        firstFaultOfAll?_renamedAll others]

end

end Expression

namespace Statement

/-- The statement in which every variable is called otherwise. -/
def renamed : Statement → Statement
  | assign target value position => assign (rename target) (value.renamed rename) position
  | bare value => bare (value.renamed rename)

theorem value_renamed (source : Statement) :
    (source.renamed rename).value = source.value.renamed rename := by
  cases source <;> rfl

theorem mentions_renamed (source : Statement) :
    (source.renamed rename).mentions = source.mentions.map rename := by
  cases source with
  | assign target value position => exact congrArg _ (value.mentions_renamed rename)
  | bare value => exact value.mentions_renamed rename

theorem mentionsOfAll_renamed (sources : List Statement) :
    mentionsOfAll (sources.map (renamed rename)) = (mentionsOfAll sources).map rename := by
  simp [mentionsOfAll, List.flatMap_map, List.map_flatMap, mentions_renamed]

theorem sitesOfAll_renamed (sources : List Statement) :
    sitesOfAll (sources.map (renamed rename)) = sitesOfAll sources := by
  induction sources with
  | nil => rfl
  | cons source others ih =>
      simp [sitesOfAll, ih, value_renamed, Expression.sites_renamed]

theorem code_renamed (slot : String → Nat) (site : Nat) (source : Statement) :
    (source.renamed rename).code slot site = source.code (slot ∘ rename) site := by
  rw [code, code, value_renamed, Expression.code_renamed]
  cases source <;> rfl

theorem codeOfAll_renamed (slot : String → Nat) (site : Nat) (sources : List Statement) :
    codeOfAll slot site (sources.map (renamed rename)) =
      codeOfAll (slot ∘ rename) site sources := by
  induction sources generalizing site with
  | nil => rfl
  | cons source others ih =>
      simp [codeOfAll, ih, code_renamed, value_renamed, Expression.sites_renamed]

variable {rename}

theorem firstFault?_renamed {source : Statement} (fair : FairRenaming rename source.mentions) :
    (source.renamed rename).firstFault? = source.firstFault? := by
  cases source with
  | assign target value position =>
      have readOnlyEq := fair.isReadOnly_eq (List.mem_cons_self ..)
      cases readOnly : Port.isReadOnly target with
      | true =>
          -- the fault tells the name of the target, but that is the name of a port
          have reserved : Port.isReserved target = true := by simp [Port.isReserved, readOnly]
          have targetEq := fair.port_eq target (List.mem_cons_self ..) reserved
          simp [renamed, firstFault?, targetEq, readOnly]
      | false =>
          simp [renamed, firstFault?, readOnlyEq, readOnly, Expression.firstFault?_renamed]
  | bare value => exact value.firstFault?_renamed rename

theorem firstFaultOfAll?_renamed {sources : List Statement}
    (fair : FairRenaming rename (mentionsOfAll sources)) :
    firstFaultOfAll? (sources.map (renamed rename)) = firstFaultOfAll? sources := by
  induction sources with
  | nil => rfl
  | cons source others ih =>
      have sourceEq := firstFault?_renamed (fair.mono (List.subset_append_left _ _))
      have othersEq := ih (fair.mono (List.subset_append_right _ _))
      rw [List.map_cons, firstFaultOfAll?, firstFaultOfAll?, sourceEq, othersEq]

end Statement

end Trees

namespace VariableTable

variable {rename : String → String}

theorem nodup_renamed {table : VariableTable} (fair : FairRenaming rename table.names) :
    (table.names.map rename).Nodup :=
  table.nodup_names.map_on (fun first firstMem second secondMem same =>
    fair.apart first firstMem second secondMem same)

theorem idxOf_renamed {table : VariableTable} {name : String}
    (fair : FairRenaming rename table.names) (mentioned : name ∈ table.names) :
    (table.names.map rename).idxOf (rename name) = table.names.idxOf name := by
  have inside : table.names.idxOf name < (table.names.map rename).length := by
    rw [List.length_map]
    exact List.idxOf_lt_length_of_mem mentioned
  have nameEq : (table.names.map rename)[table.names.idxOf name] = rename name := by simp
  rw [← nameEq]
  exact (nodup_renamed fair).idxOf_getElem _ inside

theorem find?_renamed {table : VariableTable} {name : String}
    (fair : FairRenaming rename table.names) (mentioned : name ∈ table.names) :
    (table.renamed rename).find? (rename name) = table.find? name := by
  have namesEq := names_renamed rename (nodup_renamed fair)
  have mentionedBehind : rename name ∈ (table.renamed rename).names :=
    namesEq ▸ List.mem_map_of_mem mentioned
  rw [find?_of_mem mentioned, find?_of_mem mentionedBehind, namesEq, idxOf_renamed fair mentioned]

/-- Two tables have the same names up to the renaming, mention by mention. -/
theorem names_mention_renamed {first second : VariableTable} {mentioned : List String}
    (fair : FairRenaming rename (first.names ++ mentioned))
    (namesEq : second.names = first.names.map rename) :
    (second.mention (mentioned.map rename)).names = (first.mention mentioned).names.map rename := by
  induction mentioned generalizing first second with
  | nil => exact namesEq
  | cons name others ih =>
      have internEq : (second.intern (rename name)).2.names =
          (first.intern name).2.names.map rename := by
        have knownIff : rename name ∈ second.names ↔ name ∈ first.names := by
          rw [namesEq, List.mem_map]
          constructor
          · rintro ⟨other, member, same⟩
            exact fair.apart other (List.mem_append_left _ member) name (by simp) same ▸ member
          · exact fun member => ⟨name, member, rfl⟩
        by_cases known : name ∈ first.names
        · rw [names_intern, names_intern, if_pos known, if_pos (knownIff.mpr known), namesEq]
        · rw [names_intern, names_intern, if_neg known, if_neg (mt knownIff.mp known), namesEq,
            List.map_append]
          rfl
      rw [List.map_cons, mention_cons, mention_cons]
      refine ih (fair.mono ?_) internEq
      intro other member
      rw [names_intern] at member
      split at member
      · rcases List.mem_append.mp member with old | later
        · simp [old]
        · simp [later]
      · simpa using member

theorem ofNames_renamed {mentioned : List String} (fair : FairRenaming rename mentioned) :
    ofNames (mentioned.map rename) = (ofNames mentioned).renamed rename := by
  have fairBehind : FairRenaming rename (empty.names ++ mentioned) := fair
  have namesEq : (ofNames (mentioned.map rename)).names =
      (ofNames mentioned).names.map rename := names_mention_renamed fairBehind rfl
  have distinct : ((ofNames mentioned).names.map rename).Nodup := namesEq ▸ nodup_names _
  apply ext_entries
  rw [entries_ofNames, namesEq, entries_renamed rename distinct, entries_ofNames, List.map_map,
    List.map_map]
  rfl

end VariableTable

/-- Ports are found where they were, and no other variable has become a port. -/
theorem Ports.resolve_renamed {rename : String → String} {table : VariableTable}
    (fair : FairRenaming rename table.names) :
    resolve (table.renamed rename) = resolve table := by
  have foundEq : ∀ name, Port.isReserved name = true →
      (table.renamed rename).find? name = table.find? name := by
    intro name reserved
    by_cases mentioned : name ∈ table.names
    · have nameEq := fair.port_eq name mentioned reserved
      rw [← VariableTable.find?_renamed fair mentioned, nameEq]
    · rw [VariableTable.find?_of_notMem mentioned, VariableTable.find?_of_notMem]
      rw [VariableTable.names_renamed rename (VariableTable.nodup_renamed fair), List.mem_map]
      rintro ⟨other, member, rfl⟩
      cases otherReserved : Port.isReserved other with
      | true =>
          rw [fair.port_eq other member otherReserved] at mentioned
          exact mentioned member
      | false =>
          rw [fair.noPort other member otherReserved] at reserved
          cases reserved
  have slidersEq : Port.sliders.map (table.renamed rename).find? =
      Port.sliders.map table.find? := by
    apply Vector.map_congr_left
    intro name member
    apply foundEq
    simp [Port.isReserved, Port.isReadOnly, member]
  simp only [resolve, slidersEq]
  rw [foundEq Port.input rfl, foundEq Port.inputLeft rfl, foundEq Port.inputRight rfl,
    foundEq Port.output (by simp [Port.isReserved]),
    foundEq Port.outputLeft (by simp [Port.isReserved]),
    foundEq Port.outputRight (by simp [Port.isReserved])]

/-- The patch in which every variable is called otherwise. -/
def Patch.renamed (rename : String → String) (patch : Patch) : Patch :=
  ⟨patch.program, patch.table.renamed rename⟩

/-- Renamed statements are compiled to the same program. -/
theorem Patch.ofStatements_renamed {rename : String → String} {statements : List Statement}
    {patch : Patch} (assembled : ofStatements statements = .ok patch)
    (fair : FairRenaming rename (Statement.mentionsOfAll statements)) :
    ofStatements (statements.map (Statement.renamed rename)) = .ok (patch.renamed rename) := by
  obtain ⟨noFault, codeEq, sitesEq, tableEq⟩ := ofStatements_eq_ok assembled
  have namesEq : Statement.slotNames (statements.map (Statement.renamed rename)) =
      (Statement.slotNames statements).map rename := by
    rw [Statement.slotNames, Statement.mentionsOfAll_renamed, VariableTable.ofNames_renamed fair,
      VariableTable.names_renamed rename (VariableTable.nodup_renamed fair.ofNames)]
    rfl
  -- every name has behind the renaming the slot that it had before
  have codesEq : Statement.codeOfAll
      ((Statement.slotNames (statements.map (Statement.renamed rename))).idxOf ·) 0
      (statements.map (Statement.renamed rename)) = patch.program.instructions := by
    rw [codeEq, Statement.codeOfAll_renamed, namesEq]
    apply Statement.codeOfAll_congr
    intro name member
    have mentioned : name ∈ (VariableTable.ofNames (Statement.mentionsOfAll statements)).names :=
      (VariableTable.mem_names_ofNames _ _).mpr member
    exact VariableTable.idxOf_renamed (fair.ofNames) mentioned
  rw [ofStatements_eq, Statement.firstFaultOfAll?_renamed fair, noFault, codesEq,
    Statement.sitesOfAll_renamed, Statement.mentionsOfAll_renamed,
    VariableTable.ofNames_renamed fair, ← tableEq, ← sitesEq]
  rfl

namespace VirtualMachine

/--
Rename the variables of statements that are compiled.  The renamed statements are compiled
to the same instructions and filter sites, and to the same table under the new names, in
which the ports are where they were.  Load either patch into the same machine and do
whatever may be done: all answers are the same, and the machines behind differ in the names
of variables at most, that is, in the new names unless another patch has been loaded.
-/
theorem names_do_not_matter {rename : String → String} {statements : List Statement}
    {patch : Patch} (assembled : Patch.ofStatements statements = .ok patch)
    (fair : FairRenaming rename (Statement.mentionsOfAll statements)) :
    ∃ other, Patch.ofStatements (statements.map (Statement.renamed rename)) = .ok other ∧
      other.program = patch.program ∧
      other.table = patch.table.renamed rename ∧
      other.table.entries = patch.table.entries.map (Variable.renamed rename) ∧
      Ports.resolve other.table = Ports.resolve patch.table ∧
      ∀ (virtual : VirtualMachine) (operations : List Operation),
        let first := virtual.perform (.load patch)
        let second := virtual.perform (.load other)
        second.answers operations = first.answers operations ∧
          ∃ behind, second.performAll operations =
              (first.performAll operations).renamed behind ∧
            ((∀ operation ∈ operations, operation.loaded? = none) → behind = rename) := by
  obtain ⟨_, _, _, tableEq⟩ := Patch.ofStatements_eq_ok assembled
  have portsEq : Ports.resolve (patch.table.renamed rename) = Ports.resolve patch.table := by
    rw [tableEq]
    exact Ports.resolve_renamed fair.ofNames
  have entriesEq : (patch.table.renamed rename).entries =
      patch.table.entries.map (Variable.renamed rename) := by
    rw [tableEq]
    exact VariableTable.entries_renamed rename (VariableTable.nodup_renamed fair.ofNames)
  refine ⟨patch.renamed rename, Patch.ofStatements_renamed assembled fair, rfl, rfl, entriesEq,
    portsEq, ?_⟩
  intro virtual operations first second
  have loadEq : virtual.core.machine.load (patch.renamed rename) =
      (virtual.core.machine.load patch).renamed rename := by
    rw [Machine.load, Patch.renamed, portsEq]
    rfl
  have secondEq : second = first.renamed rename :=
    congrArg (fun machine => VirtualMachine.mk
      ⟨machine, virtual.core.held, virtual.core.poisoned⟩ virtual.isOpen) loadEq
  obtain ⟨answersEq, behindEq⟩ := first.run_renamed rename operations
  rw [secondEq]
  exact ⟨answersEq, _, behindEq, Operation.foldl_namesBehind rename⟩

/-- A counter that is heard through its port, and that is called like another variable then. -/
theorem names_do_not_matter_swapped :
    let statements : List Statement :=
      [.assign "n" (.binary .add (.reference "n" .start) (.reference "step" .start) .start) .start,
        .assign "step" (.reference "slider1" .start) .start,
        .assign "out" (.reference "n" .start) .start]
    let rename : String → String := fun name =>
      if name = "n" then "step" else if name = "step" then "n" else name
    ∃ other, Patch.ofStatements (statements.map (Statement.renamed rename)) = .ok other ∧
      other.table.names = ["step", "n", "slider1", "out"] := by
  intro statements rename
  let patch : Patch :=
    ⟨⟨[.read 0, .read 1, .operate .add, .write 0, .read 2, .write 1, .read 0, .write 3], 0⟩,
      .ofNames ["n", "step", "slider1", "out"]⟩
  have assembled : Patch.ofStatements statements = .ok patch := by decide +kernel
  have fair : FairRenaming rename (Statement.mentionsOfAll statements) :=
    ⟨by decide +kernel, by decide +kernel, by decide +kernel⟩
  obtain ⟨other, assembledBehind, _, tableEq, _⟩ := names_do_not_matter assembled fair
  refine ⟨other, assembledBehind, ?_⟩
  rw [tableEq]
  decide +kernel

end VirtualMachine

end SignalPatch
