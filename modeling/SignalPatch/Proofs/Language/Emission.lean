import SignalPatch.Language.Compile
import SignalPatch.Proofs.Program.Interning

/-!
# What compiling emits

The code of an expression depends on the tree, on the slots of the names in it
and on the first free filter site, and on nothing else.  An assembly refuses a
tree with its first fault; otherwise it mentions the names of the tree in source
order, emits its code and uses up one site for each filter call.
-/

namespace SignalPatch

namespace Builtin

/-- The instruction that computes a function of so many arguments. -/
def instruction (function : Builtin) (count site : Nat) : Instruction :=
  match function.lowering with
  | .opcode opcode => .operate opcode
  | .filter kind => .filter kind count site

/-- How many sites a call of a function uses up. -/
def sites (function : Builtin) : Nat :=
  match function.lowering with
  | .opcode _ => 0
  | .filter _ => 1

def sitesOfName (name : String) : Nat :=
  (ofName? name).elim 0 sites

def callCode (name : String) (count site : Nat) : List Instruction :=
  (ofName? name).elim [] (fun function => [function.instruction count site])

end Builtin

theorem Assembly.emitCall_eq (assembly : Assembly) (function : Builtin) (count : Nat) :
    assembly.emitCall function count =
      ⟨assembly.code.push (function.instruction count assembly.sites), assembly.table,
        assembly.sites + function.sites⟩ := by
  cases function <;> rfl

namespace Expression

mutual

/-- The names that an expression mentions, in source order. -/
def mentions : Expression → List String
  | literal .. => []
  | reference name _ => [name]
  | negate operand _ => operand.mentions
  | binary _ left right _ => left.mentions ++ right.mentions
  | call _ arguments _ => mentionsOfAll arguments

def mentionsOfAll : List Expression → List String
  | [] => []
  | expression :: others => expression.mentions ++ mentionsOfAll others

end

mutual

def sites : Expression → Nat
  | literal .. | reference .. => 0
  | negate operand _ => operand.sites
  | binary _ left right _ => left.sites + right.sites
  | call name arguments _ => sitesOfAll arguments + Builtin.sitesOfName name

def sitesOfAll : List Expression → Nat
  | [] => 0
  | expression :: others => expression.sites + sitesOfAll others

end

mutual

/-- The code of an expression, where `slot` gives the slots of names and `site` is free. -/
def code (slot : String → Nat) (site : Nat) : Expression → List Instruction
  | literal value _ => [.load value]
  | reference name _ => [.read (slot name)]
  | negate operand _ => operand.code slot site ++ [.operate .negate]
  | binary operator left right _ =>
      left.code slot site ++ right.code slot (site + left.sites) ++ [.operate operator.opcode]
  | call name arguments _ =>
      codeOfAll slot site arguments ++
        Builtin.callCode name arguments.length (site + sitesOfAll arguments)

def codeOfAll (slot : String → Nat) (site : Nat) : List Expression → List Instruction
  | [] => []
  | expression :: others =>
      expression.code slot site ++ codeOfAll slot (site + expression.sites) others

end

mutual

/-- The first fault of an expression in the order of its text. -/
def firstFault? : Expression → Option Fault
  | literal .. | reference .. => none
  | negate operand _ => operand.firstFault?
  | binary _ left right _ => left.firstFault?.or right.firstFault?
  | call name arguments position =>
      match Assembly.resolveCall name arguments position with
      | .error fault => some fault
      | .ok _ => firstFaultOfAll? arguments

def firstFaultOfAll? : List Expression → Option Fault
  | [] => none
  | expression :: others => expression.firstFault?.or (firstFaultOfAll? others)

end

end Expression

namespace Statement

/-- The names that a statement mentions: the target of an assignment before its value. -/
def mentions : Statement → List String
  | assign target value _ => target :: value.mentions
  | bare value => value.mentions

def mentionsOfAll (statements : List Statement) : List String :=
  statements.flatMap mentions

def value : Statement → Expression
  | assign _ value _ | bare value => value

def sitesOfAll : List Statement → Nat
  | [] => 0
  | statement :: others => statement.value.sites + sitesOfAll others

/-- What a statement does with the value of its expression. -/
def consumption (slot : String → Nat) : Statement → Instruction
  | assign target _ _ => .write (slot target)
  | bare _ => .operate .discard

def code (slot : String → Nat) (site : Nat) (statement : Statement) : List Instruction :=
  statement.value.code slot site ++ [statement.consumption slot]

def codeOfAll (slot : String → Nat) (site : Nat) : List Statement → List Instruction
  | [] => []
  | statement :: others =>
      statement.code slot site ++ codeOfAll slot (site + statement.value.sites) others

def firstFault? : Statement → Option Fault
  | assign target value position =>
      if Port.isReadOnly target then some ⟨.assignedInput target, position⟩
      else value.firstFault?
  | bare value => value.firstFault?

def firstFaultOfAll? : List Statement → Option Fault
  | [] => none
  | statement :: others => statement.firstFault?.or (firstFaultOfAll? others)

end Statement

namespace Assembly

/-- An assembly behind the emission of code that mentions names and uses up sites. -/
def extend (assembly : Assembly) (code : List Instruction) (mentioned : List String)
    (sites : Nat) : Assembly :=
  ⟨assembly.code ++ code.toArray, assembly.table.mention mentioned, assembly.sites + sites⟩

theorem extend_extend (assembly : Assembly) (firstCode secondCode : List Instruction)
    (firstNames secondNames : List String) (firstSites secondSites : Nat) :
    (assembly.extend firstCode firstNames firstSites).extend secondCode secondNames
        secondSites =
      assembly.extend (firstCode ++ secondCode) (firstNames ++ secondNames)
        (firstSites + secondSites) := by
  simp [extend, VariableTable.mention_append, Nat.add_assoc]

theorem emit_eq_extend (assembly : Assembly) (instruction : Instruction) :
    assembly.emit instruction = assembly.extend [instruction] [] 0 := by
  simp [emit, extend]

/-- An assembly, or the fault that stands in its way. -/
def refuseOr (fault? : Option Fault) (assembly : Assembly) : Except Fault Assembly :=
  match fault? with
  | some fault => .error fault
  | none => .ok assembly

theorem refuseOr_bind {first second : Option Fault} {middle last : Assembly}
    {next : Assembly → Except Fault Assembly} (nextEq : next middle = refuseOr second last) :
    (refuseOr first middle >>= next) = refuseOr (first.or second) last := by
  cases first with
  | none => exact nextEq
  | some fault => rfl

theorem refuseOr_map (fault? : Option Fault) (middle : Assembly) (finish : Assembly → Assembly) :
    (refuseOr fault? middle >>= fun assembly => pure (finish assembly)) =
      refuseOr fault? (finish middle) := by
  cases fault? <;> rfl

theorem resolveCall_eq_ok {name : String} {arguments : List Expression} {position : Position}
    {function : Builtin} (resolved : resolveCall name arguments position = .ok function) :
    Builtin.ofName? name = some function ∧ function.arity.accepts arguments.length = true := by
  unfold resolveCall at resolved
  split at resolved
  · cases resolved
  · rename_i found named
    split at resolved
    · rename_i accepted
      cases resolved
      exact ⟨named, accepted⟩
    · cases resolved

theorem idxOf_of_prefix {known names : List String} {name : String} (present : name ∈ known)
    (within : known <+: names) : known.idxOf name = names.idxOf name := by
  obtain ⟨later, rfl⟩ := within
  simp [List.idxOf_append, present]

mutual

/-- What an assembly does with an expression, for the slots of any larger table. -/
theorem expression_eq (source : Expression) (assembly : Assembly) (names : List String)
    (within : (assembly.table.mention source.mentions).names <+: names) :
    expression source assembly =
      refuseOr source.firstFault?
        (assembly.extend (source.code (names.idxOf ·) assembly.sites) source.mentions
          source.sites) := by
  cases source with
  | literal value position =>
      exact congrArg Except.ok (emit_eq_extend assembly (.load value))
  | reference name position =>
      have slotEq : (assembly.table.intern name).1 = names.idxOf name := by
        rw [VariableTable.slot_intern]
        exact idxOf_of_prefix (VariableTable.mem_names_intern _ _) within
      simp [expression, intern, emit, slotEq, Expression.firstFault?, refuseOr, extend,
        Expression.code, Expression.mentions, Expression.sites]
  | negate operand position =>
      have operandEq := expression_eq operand assembly names within
      simp only [expression, operandEq]
      rw [refuseOr_map, emit_eq_extend, extend_extend]
      simp [Expression.firstFault?, Expression.code, Expression.mentions, Expression.sites]
  | binary operator left right position =>
      simp only [Expression.mentions, VariableTable.mention_append] at within
      have leftEq := expression_eq left assembly names
        ((VariableTable.names_prefix_mention _ _).trans within)
      have rightEq := expression_eq right
        (assembly.extend (left.code (names.idxOf ·) assembly.sites) left.mentions left.sites)
        names within
      simp only [expression, leftEq]
      rw [refuseOr_bind (by rw [rightEq]; exact refuseOr_map _ _ _), emit_eq_extend,
        extend_extend, extend_extend]
      simp [Expression.firstFault?, Expression.code, Expression.mentions, Expression.sites,
        extend]
  | call name arguments position =>
      have argumentsEq := expressions_eq arguments assembly names within
      simp only [expression, argumentsEq, Expression.firstFault?]
      cases resolved : resolveCall name arguments position with
      | error fault => rfl
      | ok function =>
          obtain ⟨named, _⟩ := resolveCall_eq_ok resolved
          change (refuseOr _ _ >>= fun assembly =>
            pure (assembly.emitCall function arguments.length)) = _
          rw [refuseOr_map, emitCall_eq]
          simp [extend, Expression.code, Expression.mentions, Expression.sites,
            Builtin.callCode, Builtin.sitesOfName, named, Nat.add_assoc]

theorem expressions_eq (sources : List Expression) (assembly : Assembly)
    (names : List String)
    (within : (assembly.table.mention (Expression.mentionsOfAll sources)).names <+: names) :
    expressions sources assembly =
      refuseOr (Expression.firstFaultOfAll? sources)
        (assembly.extend (Expression.codeOfAll (names.idxOf ·) assembly.sites sources)
          (Expression.mentionsOfAll sources) (Expression.sitesOfAll sources)) := by
  cases sources with
  | nil => simp [expressions, refuseOr, extend, Expression.firstFaultOfAll?,
      Expression.codeOfAll, Expression.mentionsOfAll, Expression.sitesOfAll]
  | cons source others =>
      simp only [Expression.mentionsOfAll, VariableTable.mention_append] at within
      have sourceEq := expression_eq source assembly names
        ((VariableTable.names_prefix_mention _ _).trans within)
      have othersEq := expressions_eq others
        (assembly.extend (source.code (names.idxOf ·) assembly.sites) source.mentions
          source.sites) names within
      simp only [expressions, sourceEq]
      rw [refuseOr_bind othersEq, extend_extend]
      rfl

end

theorem statement_eq (source : Statement) (assembly : Assembly) (names : List String)
    (within : (assembly.table.mention source.mentions).names <+: names) :
    statement source assembly =
      refuseOr source.firstFault?
        (assembly.extend (source.code (names.idxOf ·) assembly.sites) source.mentions
          source.value.sites) := by
  cases source with
  | assign target value position =>
      by_cases readOnly : Port.isReadOnly target
      · simp [statement, readOnly, Statement.firstFault?, refuseOr]
      · have slotEq : (assembly.table.intern target).1 = names.idxOf target := by
          rw [VariableTable.slot_intern]
          exact idxOf_of_prefix (VariableTable.mem_names_intern _ _)
            ((VariableTable.names_prefix_mention _ _).trans within)
        have valueEq := expression_eq value
          ⟨assembly.code, (assembly.table.intern target).2, assembly.sites⟩ names within
        simp only [statement, readOnly, Bool.false_eq_true, ↓reduceIte, intern, valueEq]
        rw [refuseOr_map, emit_eq_extend, extend_extend]
        simp [Statement.firstFault?, readOnly, Statement.code, Statement.value,
          Statement.mentions, Statement.consumption, extend, slotEq]
  | bare value =>
      have valueEq := expression_eq value assembly names within
      simp only [statement, valueEq]
      rw [refuseOr_map, emit_eq_extend, extend_extend]
      simp [Statement.firstFault?, Statement.code, Statement.value, Statement.mentions,
        Statement.consumption]

/-- What an assembly does with a list of statements. -/
theorem statements_eq (sources : List Statement) (assembly : Assembly) (names : List String)
    (within : (assembly.table.mention (Statement.mentionsOfAll sources)).names <+: names) :
    statements sources assembly =
      refuseOr (Statement.firstFaultOfAll? sources)
        (assembly.extend (Statement.codeOfAll (names.idxOf ·) assembly.sites sources)
          (Statement.mentionsOfAll sources) (Statement.sitesOfAll sources)) := by
  induction sources generalizing assembly with
  | nil => simp [statements, refuseOr, extend, Statement.firstFaultOfAll?,
      Statement.codeOfAll, Statement.mentionsOfAll, Statement.sitesOfAll]
  | cons source others ih =>
      simp only [Statement.mentionsOfAll, List.flatMap_cons,
        VariableTable.mention_append] at within
      have sourceEq := statement_eq source assembly names
        ((VariableTable.names_prefix_mention _ _).trans within)
      have othersEq := ih
        (assembly.extend (source.code (names.idxOf ·) assembly.sites) source.mentions
          source.value.sites) within
      simp only [statements, sourceEq]
      rw [refuseOr_bind othersEq, extend_extend]
      rfl

end Assembly

/-- The instruction of a call has a site if it is a filter that is called. -/
theorem Builtin.filterMap_site?_callCode (name : String) (count site : Nat) :
    (callCode name count site).filterMap Instruction.site? =
      List.range' site (sitesOfName name) := by
  unfold callCode sitesOfName
  cases ofName? name with
  | none => rfl
  | some function => cases function <;> rfl

section Sites

variable (slot : String → Nat)

mutual

/-- The filter calls of an expression get the next sites, one after the other. -/
theorem Expression.sites_code (source : Expression) (site : Nat) :
    (source.code slot site).filterMap Instruction.site? = List.range' site source.sites := by
  cases source with
  | literal | reference => rfl
  | negate operand position =>
      have operandEq := operand.sites_code site
      simp [code, sites, operandEq, Instruction.site?]
  | binary operator left right position =>
      have leftEq := left.sites_code site
      have rightEq := right.sites_code (site + left.sites)
      simp [code, sites, leftEq, rightEq, List.filterMap_cons, Instruction.site?]
  | call name arguments position =>
      have argumentsEq := Expression.sites_codeOfAll arguments site
      simp [code, sites, argumentsEq, Builtin.filterMap_site?_callCode]

theorem Expression.sites_codeOfAll (sources : List Expression) (site : Nat) :
    (codeOfAll slot site sources).filterMap Instruction.site? =
      List.range' site (sitesOfAll sources) := by
  cases sources with
  | nil => rfl
  | cons source others =>
      have sourceEq := source.sites_code site
      have othersEq := Expression.sites_codeOfAll others (site + source.sites)
      simp [codeOfAll, sitesOfAll, sourceEq, othersEq]

end

theorem Statement.sites_code (source : Statement) (site : Nat) :
    (source.code slot site).filterMap Instruction.site? =
      List.range' site source.value.sites := by
  rw [code, List.filterMap_append, Expression.sites_code]
  cases source <;> exact List.append_nil _

theorem Statement.sites_codeOfAll (sources : List Statement) (site : Nat) :
    (codeOfAll slot site sources).filterMap Instruction.site? =
      List.range' site (sitesOfAll sources) := by
  induction sources generalizing site with
  | nil => rfl
  | cons source others ih =>
      have sourceEq := source.sites_code slot site
      simp [codeOfAll, sitesOfAll, sourceEq, ih]

end Sites

namespace Program

variable {code : List Instruction} {count : Nat}

/-- As the sites are counted from zero, the last one tells how many there are. -/
theorem filterSites_sized (sitesEq : code.filterMap Instruction.site? = List.range count) :
    (sized (· + 1) code).filterSites = count := by
  change ((code.filterMap Instruction.site?).map (· + 1)).foldl max 0 = count
  rw [sitesEq]
  clear sitesEq
  induction count with
  | zero => rfl
  | succ count ih =>
      rw [List.range_succ, List.map_append, List.foldl_append, ih]
      exact Nat.max_eq_right (Nat.le_succ count)

/-- It makes no difference that the sites of a program are counted in 64 bits. -/
theorem ofInstructions_eq_sized
    (sitesEq : code.filterMap Instruction.site? = List.range count)
    (small : count < 0x10000000000000000) : ofInstructions code = sized (· + 1) code := by
  have neededEq : (List.range count).map (fun site => (site + 1) % 0x10000000000000000) =
      (List.range count).map (· + 1) := by
    refine List.map_congr_left fun site inside => Nat.mod_eq_of_lt ?_
    have := List.mem_range.mp inside
    omega
  rw [ofInstructions, sized, sized, sitesEq, neededEq]

end Program

/-- Statements need as many filter sites as they use up. -/
theorem Program.sized_codeOfAll (slot : String → Nat) (statements : List Statement) :
    sized (· + 1) (Statement.codeOfAll slot 0 statements) =
      ⟨Statement.codeOfAll slot 0 statements, Statement.sitesOfAll statements⟩ := by
  have inOrder : (Statement.codeOfAll slot 0 statements).filterMap Instruction.site? =
      List.range (Statement.sitesOfAll statements) := by
    rw [Statement.sites_codeOfAll, List.range_eq_range']
  exact congrArg (Program.mk _) (filterSites_sized inOrder)

/-- The names of the variables of a patch, in slot order. -/
def Statement.slotNames (statements : List Statement) : List String :=
  (VariableTable.ofNames (mentionsOfAll statements)).names

/-- A list of statements is refused with its first fault or becomes a patch. -/
theorem Patch.ofStatements_eq (statements : List Statement) :
    Patch.ofStatements statements =
      match Statement.firstFaultOfAll? statements with
      | some fault => .error fault
      | none => .ok
          ⟨⟨Statement.codeOfAll ((Statement.slotNames statements).idxOf ·) 0 statements,
            Statement.sitesOfAll statements⟩,
          VariableTable.ofNames (Statement.mentionsOfAll statements)⟩ := by
  have assembled := Assembly.statements_eq statements .empty
    (Statement.slotNames statements) (List.prefix_refl _)
  simp only [Patch.ofStatements, assembled, Assembly.refuseOr]
  cases Statement.firstFaultOfAll? statements with
  | some fault => rfl
  | none =>
      simp only [Assembly.extend, Assembly.empty]
      simp [Assembly.patch, Bind.bind, Except.bind, Pure.pure, Except.pure,
        VariableTable.ofNames, VariableTable.mention, Program.sized_codeOfAll]

/-- What is known of the patch of an accepted list of statements. -/
theorem Patch.ofStatements_eq_ok {statements : List Statement} {patch : Patch}
    (compiled : Patch.ofStatements statements = .ok patch) :
    Statement.firstFaultOfAll? statements = none ∧
      patch.program.instructions =
        Statement.codeOfAll ((Statement.slotNames statements).idxOf ·) 0 statements ∧
      patch.program.filterSites = Statement.sitesOfAll statements ∧
      patch.table = VariableTable.ofNames (Statement.mentionsOfAll statements) := by
  rw [Patch.ofStatements_eq] at compiled
  cases faulty : Statement.firstFaultOfAll? statements with
  | some fault =>
      rw [faulty] at compiled
      cases compiled
  | none =>
      rw [faulty] at compiled
      cases compiled
      exact ⟨rfl, rfl, rfl, rfl⟩

theorem compile_eq_ok {text : String} {patch : Patch} (compiled : compile text = .ok patch) :
    ∃ statements, parse text = .ok statements ∧ Patch.ofStatements statements = .ok patch := by
  unfold compile at compiled
  split at compiled
  · cases compiled
  · rename_i statements parsed
    exact ⟨statements, parsed, compiled⟩

end SignalPatch
