import SignalPatch.Proofs.Language.GuardExactness
import SignalPatch.Proofs.Language.JoinedPatches
import SignalPatch.Proofs.Language.SlotOrder
import SignalPatch.Proofs.Machine.TakenValues

/-!
# Compiled code keeps the balance of the stack

The code of an expression leaves one value more on the stack than it finds there, and the
code of a statement leaves as many, where there is room.  Neither takes anything of what
it finds.  A compiled program names slots that its table has, its filter calls have the
sites in order, and every filter has as many arguments as it takes.
-/

namespace SignalPatch

namespace Assembly

theorem refuseOr_eq_ok {fault? : Option Fault} {assembly after : Assembly}
    (accepted : refuseOr fault? assembly = .ok after) : fault? = none ∧ after = assembly := by
  cases fault? with
  | some fault => cases accepted
  | none =>
      cases accepted
      exact ⟨rfl, rfl⟩

/-- What code was added to an assembly: what it needs on any stack, and how it leaves it. -/
structure Adds (assembly after : Assembly) (needed results : Nat) (emitted : List Instruction) :
    Prop where
  code_eq : after.code.toList = assembly.code.toList ++ emitted
  /-- The code takes nothing of what it finds on the stack, and has room or overflows. -/
  balanced : ∀ memory : Memory, after.sites ≤ memory.filters.size →
    memory.StaysAbove memory.stack.toList emitted ∧
      Memory.ending (Memory.run emitted memory) =
        Expression.endingWithin memory.stack.capacity (memory.stack.size + needed)
          (memory.stack.size + results)

/-- Code that is balanced on an empty stack takes nothing of what any stack holds. -/
theorem adds_of_height {assembly : Assembly} {emitted : List Instruction}
    {mentioned : List String} {sites needed results : Nat}
    (height : ∀ capacity available below : Nat, assembly.sites + sites ≤ available →
      below ≤ capacity →
        Memory.heightBehind capacity available below emitted =
          Expression.endingWithin capacity (below + needed) (below + results)) :
    Adds assembly (assembly.extend emitted mentioned sites) needed results emitted := by
  refine ⟨by simp [extend], fun memory enough => ⟨?_, ?_⟩⟩
  · have alone := height needed (assembly.sites + sites) 0 (Nat.le_refl _) (Nat.zero_le _)
    rw [Nat.zero_add, Expression.endingWithin_of_le (Nat.le_refl _)] at alone
    exact Memory.staysAbove_of_height (List.append_nil _).symm alone
  · rw [(Memory.run_spec emitted memory).1]
    exact height _ _ _ enough memory.stack.size_le_capacity

theorem adds_of_expression {source : Expression} {assembly after : Assembly}
    (accepted : expression source assembly = .ok after) :
    ∃ emitted, Adds assembly after source.need 1 emitted := by
  rw [expression_eq source assembly _ (List.prefix_refl _)] at accepted
  obtain ⟨faultless, rfl⟩ := refuseOr_eq_ok accepted
  exact ⟨_, adds_of_height fun capacity available below free room =>
    source.height_code capacity available _ faultless assembly.sites free below room⟩

theorem adds_of_statement {source : Statement} {assembly after : Assembly}
    (accepted : statement source assembly = .ok after) :
    ∃ emitted, Adds assembly after source.value.need 0 emitted := by
  rw [statement_eq source assembly _ (List.prefix_refl _)] at accepted
  obtain ⟨faultless, rfl⟩ := refuseOr_eq_ok accepted
  exact ⟨_, adds_of_height fun capacity available below free room =>
    source.height_code capacity available _ faultless assembly.sites free below room⟩

end Assembly

namespace Patch

variable {statements : List Statement} {patch : Patch}

/-- What is compiled from the first statements is run first, and leaves the stack empty. -/
theorem empty_behind_statements {first rest : List Statement}
    (assembled : ofStatements (first ++ rest) = .ok patch) :
    ∃ begun, ofStatements first = .ok begun ∧
      begun.program.instructions <+: patch.program.instructions ∧
      ∀ memory : Memory, memory.filters.size = patch.program.filterSites →
        memory.stack.size = 0 →
          Memory.ending (Memory.run begun.program.instructions memory) =
            Expression.endingWithin memory.stack.capacity (Statement.needOfAll first) 0 := by
  obtain ⟨faultless, _, sitesEq, _⟩ := ofStatements_eq_ok assembled
  rw [Statement.firstFaultOfAll?_append, Option.or_eq_none_iff] at faultless
  have begins := ofStatements_eq first
  rw [faultless.1] at begins
  refine ⟨_, begins, ?_, ?_⟩
  · rw [ofStatements_append begins rest] at assembled
    split at assembled
    · cases assembled
      exact List.prefix_append _ _
    · cases assembled
  · intro memory bankEq emptyEq
    rw [(Memory.run_spec _ memory).1, emptyEq]
    apply Statement.height_codeOfAll _ _ _ _ faultless.1
    rw [bankEq, sitesEq, Statement.sitesOfAll_append]
    omega

/-- The instructions of a patch fit its table, its filter memories and the filters they call. -/
structure WellFormed (patch : Patch) : Prop where
  slots_lt : ∀ access ∈ patch.program.instructions.filterMap Instruction.access?,
    access.key < patch.table.size
  sites_eq : patch.program.instructions.filterMap Instruction.site? =
    List.range patch.program.filterSites
  /-- As far as 64 bits hold the sites, they are counted like those of any program. -/
  program_eq : patch.program.filterSites < 0x10000000000000000 →
    Program.ofInstructions patch.program.instructions = patch.program
  accepts : ∀ kind count site, .filter kind count site ∈ patch.program.instructions →
    ∀ (bank : FilterBank) (arguments : List Sample), site < bank.size →
      arguments.length = count → (bank.process site kind arguments).1.isSome = true

theorem slots_lt_of_ofStatements (assembled : ofStatements statements = .ok patch) :
    ∀ access ∈ patch.program.instructions.filterMap Instruction.access?,
      access.key < patch.table.size := by
  intro access member
  have inCode : access.map some ∈
      (patch.program.instructions.filterMap Instruction.access?).map (Access.map some) :=
    List.mem_map_of_mem member
  rw [accesses_of_ofStatements assembled] at inCode
  obtain ⟨named, _, namedEq⟩ := List.mem_map.mp inCode
  have found : patch.table.find? named.key = some access.key := by
    have keysEq := congrArg Access.key namedEq
    rwa [Access.key_map, Access.key_map] at keysEq
  have named := (patch.table.consistent _ _).mp found
  rw [VariableStore.name?_eq_names_getElem?] at named
  rw [VariableStore.size_eq_length_names]
  exact (List.getElem?_eq_some_iff.mp named).1

theorem wellFormed_of_ofStatements (assembled : ofStatements statements = .ok patch) :
    patch.WellFormed := by
  obtain ⟨faultless, codeEq, sitesEq, _⟩ := ofStatements_eq_ok assembled
  have inOrder : patch.program.instructions.filterMap Instruction.site? =
      List.range patch.program.filterSites := by
    rw [codeEq, Statement.sites_codeOfAll, sitesEq, List.range_eq_range']
  refine ⟨slots_lt_of_ofStatements assembled, inOrder, ?_, ?_⟩
  · intro small
    rw [Program.ofInstructions_eq_sized inOrder small]
    have countEq := Program.filterSites_sized inOrder
    obtain ⟨⟨instructions, filterSites⟩, table⟩ := patch
    exact congrArg (Program.mk instructions) countEq
  · intro kind count site member bank arguments inside lengthEq
    have height := Statement.height_codeOfAll (Statement.needOfAll statements)
      (Statement.sitesOfAll statements) ((Statement.slotNames statements).idxOf ·) statements
      faultless 0 (by omega)
    rw [Expression.endingWithin_of_le (Nat.le_refl _), ← codeEq] at height
    obtain ⟨_, fits⟩ := Memory.accepted_of_height height member
    rw [FilterBank.process_isSome, lengthEq, fits, Bool.and_true, decide_eq_true_eq]
    exact inside

end Patch

/--
Every instruction exchanges the number of values on top of the stack that it is said to take
for others.  Code that is generated for an expression, in whatever state of the assembly,
takes nothing of what it finds on a stack of any height, and leaves one value more there if
there is room for what it needs; otherwise it overflows.  The code of a statement leaves as
many values as it finds, so that the stack is empty behind each statement of a patch.  In a
patch, all slots are in its table, the filter calls have the sites from zero on in order, as
many as the program tells, and every filter can run on as many arguments as it is called with.
-/
theorem Assembly.code_is_balanced :
    (∀ (memory next : Memory) (instruction : Instruction),
      memory.step instruction = .ok next →
        ∃ below taken given, Memory.Exchange instruction memory.stack.toList
          next.stack.toList below taken given) ∧
    (∀ (source : Expression) (assembly after : Assembly),
      expression source assembly = .ok after →
        ∃ emitted, Adds assembly after source.need 1 emitted) ∧
    (∀ (source : Statement) (assembly after : Assembly),
      statement source assembly = .ok after →
        ∃ emitted, Adds assembly after source.value.need 0 emitted) ∧
    ∀ (statements : List Statement) (patch : Patch),
      Patch.ofStatements statements = .ok patch →
        (∀ first rest, statements = first ++ rest →
          ∃ begun, Patch.ofStatements first = .ok begun ∧
            begun.program.instructions <+: patch.program.instructions ∧
            ∀ memory : Memory, memory.filters.size = patch.program.filterSites →
              memory.stack.size = 0 →
                Memory.ending (Memory.run begun.program.instructions memory) =
                  Expression.endingWithin memory.stack.capacity
                    (Statement.needOfAll first) 0) ∧
        patch.WellFormed := by
  refine ⟨fun _ _ _ => Memory.exchange_of_step, fun _ _ _ => adds_of_expression,
    fun _ _ _ => adds_of_statement, ?_⟩
  intro statements patch assembled
  refine ⟨?_, Patch.wellFormed_of_ofStatements assembled⟩
  rintro first rest rfl
  exact Patch.empty_behind_statements assembled

/-- A filter call in an argument of another one has the site before it. -/
theorem Assembly.code_is_balanced_nested :
    ∃ patch, Patch.ofStatements
        [.bare (.reference "x" .start),
          .assign "out" (.call "fir" [.call "fir" [.reference "in" .start, .literal 1 .start] .start,
            .literal 1 .start] .start) .start] = .ok patch ∧
      patch.program.instructions.filterMap Instruction.site? = [0, 1] ∧
      ∃ begun, Patch.ofStatements [.bare (.reference "x" .start)] = .ok begun ∧
        begun.program.instructions <+: patch.program.instructions := by
  let patch : Patch :=
    ⟨⟨[.read 0, .operate .discard, .read 2, .load 1, .filter .fir 2 0, .load 1, .filter .fir 2 1,
      .write 1], 2⟩, .ofNames ["x", "out", "in"]⟩
  have assembled : Patch.ofStatements
      [.bare (.reference "x" .start),
        .assign "out" (.call "fir" [.call "fir" [.reference "in" .start, .literal 1 .start] .start,
          .literal 1 .start] .start) .start] = .ok patch := by
    decide +kernel
  obtain ⟨behind, wellFormed⟩ := code_is_balanced.2.2.2 _ _ assembled
  obtain ⟨begun, begins, within, _⟩ := behind [.bare (.reference "x" .start)] _ rfl
  exact ⟨patch, assembled, wellFormed.sites_eq, begun, begins, within⟩

end SignalPatch
