import SignalPatch.Proofs.Language.Emission
import SignalPatch.Proofs.Language.JoinedTokens
import SignalPatch.Proofs.Language.StatementSequence

/-!
# Patches of texts written one below the other

The patch of two texts with a newline between them is the patch of the first one
followed by that of the second one.  The second one finds its variables where the
joined table has them, and its filter calls come behind those of the first one.  So
a text is accepted below another one just when it is accepted alone.
-/

namespace SignalPatch

/-- Where a joined table has the name that a table has at a slot. -/
def joinedSlot (names joined : List String) (slot : Nat) : Nat :=
  (names[slot]?).elim slot joined.idxOf

/-- An instruction with its slot renamed and with so many filter sites before its own. -/
def Instruction.relocated (rename : Nat → Nat) (sites : Nat) : Instruction → Instruction
  | .read slot => .read (rename slot)
  | .write slot => .write (rename slot)
  | .filter kind arguments site => .filter kind arguments (site + sites)
  | .operate opcode => .operate opcode
  | .load value => .load value

namespace Patch

/-- The names of a patch, and those of another one that are new. -/
def joinedNames (first second : Patch) : List String :=
  first.table.names ++ second.table.names.filter (fun name => name ∉ first.table.names)

/-- A patch and behind it another one, whose variables are found by their names. -/
def followedBy (first second : Patch) : Patch where
  program :=
    ⟨first.program.instructions ++
      second.program.instructions.map (.relocated
        (joinedSlot second.table.names (first.joinedNames second)) first.program.filterSites),
      first.program.filterSites + second.program.filterSites⟩
  table := .holding (first.joinedNames second) (fun _ => 0)

end Patch

namespace VariableTable

/-- A table gets the names that it does not have yet, in the order of their first mention. -/
theorem names_mention_eq (table : VariableTable) (mentioned : List String) :
    (table.mention mentioned).names =
      table.names ++ (ofNames mentioned).names.filter (fun name => name ∉ table.names) := by
  induction mentioned using List.reverseRecOn with
  | nil =>
      have noNames : (ofNames []).names = [] := rfl
      simp [noNames]
  | append_singleton mentioned name ih =>
      have laterEq : (ofNames (mentioned ++ [name])).names =
          ((ofNames mentioned).intern name).2.names := by
        rw [ofNames, List.foldl_append]
        rfl
      rw [mention_append, mention_cons, mention_nil, laterEq, names_intern, names_intern, ih]
      by_cases old : name ∈ table.names
      · by_cases again : name ∈ (ofNames mentioned).names
        · simp [old, again]
        · simp [old, again]
      · by_cases again : name ∈ (ofNames mentioned).names
        · simp [old, again]
        · simp [old, again]

end VariableTable

section Relocation

variable {rename : Nat → Nat} {slot relocatedSlot : String → Nat}

theorem Builtin.callCode_relocated (rename : Nat → Nat) (sites : Nat) (name : String)
    (count site : Nat) :
    callCode name count (site + sites) =
      (callCode name count site).map (.relocated rename sites) := by
  unfold callCode
  cases ofName? name with
  | none => rfl
  | some function => cases function <;> rfl

namespace Expression

mutual

theorem code_relocated (source : Expression) (sites site : Nat)
    (agree : ∀ name ∈ source.mentions, relocatedSlot name = rename (slot name)) :
    source.code relocatedSlot (site + sites) =
      (source.code slot site).map (.relocated rename sites) := by
  cases source with
  | literal value position => rfl
  | reference name position =>
      have slotEq := agree name (List.mem_singleton_self name)
      simp [code, Instruction.relocated, slotEq]
  | negate operand position =>
      have operandEq := code_relocated operand sites site agree
      simp [code, Instruction.relocated, operandEq]
  | binary operator left right position =>
      have leftEq := code_relocated left sites site
        (fun name member => agree name (List.mem_append_left _ member))
      have rightEq := code_relocated right sites (site + left.sites)
        (fun name member => agree name (List.mem_append_right _ member))
      simp [code, Instruction.relocated, leftEq, ← rightEq, Nat.add_right_comm]
  | call name arguments position =>
      have argumentsEq := codeOfAll_relocated arguments sites site agree
      have callEq := Builtin.callCode_relocated rename sites name arguments.length
        (site + sitesOfAll arguments)
      simp [code, argumentsEq, ← callEq, Nat.add_right_comm]

theorem codeOfAll_relocated (sources : List Expression) (sites site : Nat)
    (agree : ∀ name ∈ mentionsOfAll sources, relocatedSlot name = rename (slot name)) :
    codeOfAll relocatedSlot (site + sites) sources =
      (codeOfAll slot site sources).map (.relocated rename sites) := by
  cases sources with
  | nil => rfl
  | cons source others =>
      have sourceEq := code_relocated source sites site
        (fun name member => agree name (List.mem_append_left _ member))
      have othersEq := codeOfAll_relocated others sites (site + source.sites)
        (fun name member => agree name (List.mem_append_right _ member))
      simp [codeOfAll, sourceEq, ← othersEq, Nat.add_right_comm]

end

end Expression

namespace Statement

theorem code_relocated (source : Statement) (sites site : Nat)
    (agree : ∀ name ∈ source.mentions, relocatedSlot name = rename (slot name)) :
    source.code relocatedSlot (site + sites) =
      (source.code slot site).map (.relocated rename sites) := by
  cases source with
  | bare value =>
      have valueEq := value.code_relocated sites site agree
      simp [code, Statement.value, consumption, Instruction.relocated, valueEq]
  | assign target value position =>
      have valueEq := value.code_relocated sites site
        (fun name member => agree name (List.mem_cons_of_mem _ member))
      have targetEq := agree target (List.mem_cons_self ..)
      simp [code, Statement.value, consumption, Instruction.relocated, valueEq, targetEq]

theorem codeOfAll_relocated (sources : List Statement) (sites site : Nat)
    (agree : ∀ name ∈ mentionsOfAll sources, relocatedSlot name = rename (slot name)) :
    codeOfAll relocatedSlot (site + sites) sources =
      (codeOfAll slot site sources).map (.relocated rename sites) := by
  induction sources generalizing site with
  | nil => rfl
  | cons source others ih =>
      have sourceEq := source.code_relocated sites site
        (fun name member => agree name (List.mem_append_left _ member))
      have othersEq := ih (site + source.value.sites)
        (fun name member => agree name (List.mem_append_right _ member))
      simp [codeOfAll, sourceEq, ← othersEq, Nat.add_right_comm]

theorem codeOfAll_append (slot : String → Nat) (site : Nat) (first second : List Statement) :
    codeOfAll slot site (first ++ second) =
      codeOfAll slot site first ++ codeOfAll slot (site + sitesOfAll first) second := by
  induction first generalizing site with
  | nil => rfl
  | cons source others ih => simp [codeOfAll, sitesOfAll, ih, Nat.add_assoc]

theorem sitesOfAll_append (first second : List Statement) :
    sitesOfAll (first ++ second) = sitesOfAll first + sitesOfAll second := by
  induction first with
  | nil => simp [sitesOfAll]
  | cons source others ih => simp [sitesOfAll, ih, Nat.add_assoc]

theorem firstFaultOfAll?_append (first second : List Statement) :
    firstFaultOfAll? (first ++ second) =
      (firstFaultOfAll? first).or (firstFaultOfAll? second) := by
  induction first with
  | nil => rfl
  | cons source others ih => simp [firstFaultOfAll?, ih, Option.or_assoc]

end Statement

end Relocation

theorem Instruction.relocated_id : relocated id 0 = id := by
  funext instruction
  cases instruction <;> rfl

theorem Statement.codeOfAll_congr {slot otherSlot : String → Nat} {sources : List Statement}
    (agree : ∀ name ∈ mentionsOfAll sources, otherSlot name = slot name) (site : Nat) :
    codeOfAll otherSlot site sources = codeOfAll slot site sources := by
  have unchanged : codeOfAll otherSlot (site + 0) sources =
      (codeOfAll slot site sources).map (Instruction.relocated id 0) :=
    codeOfAll_relocated sources 0 site agree
  rw [Instruction.relocated_id, List.map_id] at unchanged
  exact unchanged

theorem joinedSlot_idxOf {names : List String} (joined : List String) {name : String}
    (member : name ∈ names) : joinedSlot names joined (names.idxOf name) = joined.idxOf name := by
  have inside := List.idxOf_lt_length_iff.mpr member
  rw [joinedSlot, List.getElem?_eq_getElem inside, List.getElem_idxOf]
  rfl

/-- A list of statements behind others is refused, or assembled, as it is alone. -/
theorem Patch.ofStatements_append {first : List Statement} {patch : Patch}
    (assembled : ofStatements first = .ok patch) (second : List Statement) :
    ofStatements (first ++ second) =
      match ofStatements second with
      | .ok later => .ok (patch.followedBy later)
      | .error fault => .error fault := by
  obtain ⟨noFault, codeEq, sitesEq, tableEq⟩ := ofStatements_eq_ok assembled
  rw [ofStatements_eq, ofStatements_eq second, Statement.firstFaultOfAll?_append, noFault,
    Option.none_or]
  cases Statement.firstFaultOfAll? second with
  | some fault => rfl
  | none =>
      have mentionsEq : Statement.mentionsOfAll (first ++ second) =
          Statement.mentionsOfAll first ++ Statement.mentionsOfAll second := List.flatMap_append
      have tablesEq : VariableTable.ofNames (Statement.mentionsOfAll (first ++ second)) =
          patch.table.mention (Statement.mentionsOfAll second) := by
        rw [mentionsEq, tableEq]
        exact VariableTable.mention_append _ _ _
      have namesEq : Statement.slotNames (first ++ second) =
          patch.table.names ++ (Statement.slotNames second).filter
            (fun name => name ∉ patch.table.names) := by
        rw [Statement.slotNames, tablesEq, VariableTable.names_mention_eq]
        rfl
      have firstCode : Statement.codeOfAll ((Statement.slotNames (first ++ second)).idxOf ·) 0
          first = patch.program.instructions := by
        rw [codeEq]
        apply Statement.codeOfAll_congr
        intro name member
        have mentioned : name ∈ patch.table.names := by
          rw [tableEq, VariableTable.mem_names_ofNames]
          exact member
        rw [namesEq, ← Assembly.idxOf_of_prefix mentioned (List.prefix_append _ _), tableEq]
        rfl
      have secondCode := @Statement.codeOfAll_relocated
        (joinedSlot (Statement.slotNames second) (Statement.slotNames (first ++ second)))
        ((Statement.slotNames second).idxOf ·)
        ((Statement.slotNames (first ++ second)).idxOf ·) second
        patch.program.filterSites 0 (by
          intro name member
          have mentioned : name ∈ Statement.slotNames second :=
            (VariableTable.mem_names_ofNames _ _).mpr member
          exact (joinedSlot_idxOf _ mentioned).symm)
      have zeros := VariableTable.ofNames_eq_holding (Statement.mentionsOfAll (first ++ second))
      change _ = VariableTable.holding (Statement.slotNames (first ++ second)) _ at zeros
      rw [Statement.codeOfAll_append, Statement.sitesOfAll_append, ← sitesEq, firstCode,
        secondCode, zeros, namesEq]
      rfl

section Moved

variable {move : Position → Position}

theorem Expression.position_moved (source : Expression) :
    (source.moved move).position = move source.position := by
  cases source <;> rfl

theorem Assembly.resolveCall_moved (name : String) (arguments : List Expression)
    (position : Position) :
    resolveCall name (arguments.map (Expression.moved move)) (move position) =
      movedOutcome move id (resolveCall name arguments position) := by
  unfold resolveCall
  cases Builtin.ofName? name with
  | none => rfl
  | some function =>
      simp only [List.length_map, List.getElem?_map]
      split
      · rfl
      · cases arguments[function.arity.most]? with
        | none => rfl
        | some surplus => simp [movedOutcome, Fault.moved, Expression.position_moved]

namespace Expression

/-- What is emitted for a tree depends on no position. -/
structure SameEmission (first second : Expression) : Prop where
  mentions_eq : second.mentions = first.mentions
  sites_eq : second.sites = first.sites
  code_eq : ∀ slot site, second.code slot site = first.code slot site

mutual

theorem sameEmission_moved (source : Expression) :
    source.SameEmission (source.moved move) := by
  cases source with
  | literal | reference => exact ⟨rfl, rfl, fun _ _ => rfl⟩
  | negate operand position =>
      obtain ⟨mentionsEq, sitesEq, codeEq⟩ := sameEmission_moved operand
      exact ⟨mentionsEq, sitesEq, fun slot site => congrArg (· ++ _) (codeEq slot site)⟩
  | binary operator left right position =>
      obtain ⟨leftMentions, leftSites, leftCode⟩ := sameEmission_moved left
      obtain ⟨rightMentions, rightSites, rightCode⟩ := sameEmission_moved right
      refine ⟨?_, ?_, fun slot site => ?_⟩
      · simp only [moved, mentions, leftMentions, rightMentions]
      · simp only [moved, sites, leftSites, rightSites]
      · simp only [moved, code, leftSites, leftCode, rightCode]
  | call name arguments position =>
      obtain ⟨mentionsEq, sitesEq, codeEq⟩ := sameEmission_movedAll arguments
      have lengthEq : (movedAll move arguments).length = arguments.length := by
        rw [movedAll_eq_map, List.length_map]
      refine ⟨mentionsEq, ?_, fun slot site => ?_⟩
      · simp only [moved, sites, sitesEq]
      · simp only [moved, code, sitesEq, codeEq, lengthEq]

theorem sameEmission_movedAll (sources : List Expression) :
    mentionsOfAll (movedAll move sources) = mentionsOfAll sources ∧
      sitesOfAll (movedAll move sources) = sitesOfAll sources ∧
      ∀ slot site, codeOfAll slot site (movedAll move sources) = codeOfAll slot site sources := by
  cases sources with
  | nil => exact ⟨rfl, rfl, fun _ _ => rfl⟩
  | cons source others =>
      obtain ⟨mentionsEq, sitesEq, codeEq⟩ := sameEmission_moved source
      obtain ⟨othersMentions, othersSites, othersCode⟩ := sameEmission_movedAll others
      refine ⟨?_, ?_, fun slot site => ?_⟩
      · simp only [movedAll, mentionsOfAll, mentionsEq, othersMentions]
      · simp only [movedAll, sitesOfAll, sitesEq, othersSites]
      · simp only [movedAll, codeOfAll, sitesEq, codeEq, othersCode]

end

mutual

theorem firstFault?_moved (source : Expression) :
    (source.moved move).firstFault? = source.firstFault?.map (Fault.moved move) := by
  cases source with
  | literal | reference => rfl
  | negate operand position => exact firstFault?_moved operand
  | binary operator left right position =>
      simp only [moved, firstFault?, firstFault?_moved left, firstFault?_moved right,
        Option.map_or]
  | call name arguments position =>
      have argumentsEq := firstFaultOfAll?_movedAll arguments
      rw [movedAll_eq_map] at argumentsEq
      simp only [moved, firstFault?, movedAll_eq_map, Assembly.resolveCall_moved]
      cases Assembly.resolveCall name arguments position with
      | error fault => rfl
      | ok function => exact argumentsEq

theorem firstFaultOfAll?_movedAll (sources : List Expression) :
    firstFaultOfAll? (movedAll move sources) =
      (firstFaultOfAll? sources).map (Fault.moved move) := by
  cases sources with
  | nil => rfl
  | cons source others =>
      simp only [movedAll, firstFaultOfAll?, firstFault?_moved source,
        firstFaultOfAll?_movedAll others, Option.map_or]

end

end Expression

namespace Statement

theorem firstFault?_moved (source : Statement) :
    (source.moved move).firstFault? = source.firstFault?.map (Fault.moved move) := by
  cases source with
  | bare value => exact value.firstFault?_moved
  | assign target value position =>
      simp only [moved, firstFault?]
      split
      · rfl
      · exact value.firstFault?_moved

theorem firstFaultOfAll?_moved (sources : List Statement) :
    firstFaultOfAll? (sources.map (moved move)) =
      (firstFaultOfAll? sources).map (Fault.moved move) := by
  induction sources with
  | nil => rfl
  | cons source others ih =>
      simp only [List.map_cons, firstFaultOfAll?, firstFault?_moved, ih, Option.map_or]

theorem sameEmission_moved (sources : List Statement) :
    mentionsOfAll (sources.map (moved move)) = mentionsOfAll sources ∧
      sitesOfAll (sources.map (moved move)) = sitesOfAll sources ∧
      ∀ slot site, codeOfAll slot site (sources.map (moved move)) =
        codeOfAll slot site sources := by
  induction sources with
  | nil => exact ⟨rfl, rfl, fun _ _ => rfl⟩
  | cons source others ih =>
      obtain ⟨othersMentions, othersSites, othersCode⟩ := ih
      have valueEq : source.value.SameEmission (source.value.moved move) :=
        source.value.sameEmission_moved
      have sourceMentions : (source.moved move).mentions = source.mentions := by
        cases source with
        | bare value => exact valueEq.mentions_eq
        | assign target value position => exact congrArg (target :: ·) valueEq.mentions_eq
      have sourceSites : (source.moved move).value.sites = source.value.sites := by
        cases source <;> exact valueEq.sites_eq
      have sourceCode : ∀ slot site, (source.moved move).code slot site =
          source.code slot site := by
        intro slot site
        cases source <;> exact congrArg (· ++ _) (valueEq.code_eq slot site)
      refine ⟨?_, ?_, fun slot site => ?_⟩
      · exact congrArg₂ (· ++ ·) sourceMentions othersMentions
      · simp only [List.map_cons, sitesOfAll, sourceSites, othersSites]
      · simp only [List.map_cons, codeOfAll, sourceSites, sourceCode, othersCode]

end Statement

theorem Patch.ofStatements_moved (statements : List Statement) :
    ofStatements (statements.map (Statement.moved move)) =
      movedOutcome move id (ofStatements statements) := by
  obtain ⟨mentionsEq, sitesEq, codeEq⟩ := @Statement.sameEmission_moved move statements
  rw [ofStatements_eq, ofStatements_eq, Statement.firstFaultOfAll?_moved, Statement.slotNames,
    Statement.slotNames, mentionsEq, sitesEq, codeEq]
  cases Statement.firstFaultOfAll? statements with
  | none => rfl
  | some fault => rfl

end Moved

/-- Behind a separator a text is read as it is alone. -/
theorem TokenStream.statements_followedBy {first : TokenStream} {completed : List Statement}
    (success : first.statements = .ok completed) (second : TokenStream) :
    (first.followedBy second).statements = continued completed second.statements := by
  obtain ⟨script, yieldEq, treesEq, fits⟩ := exists_script success
  rw [followedBy, ← yieldEq, ← treesEq]
  exact statements_behind fits _ _

theorem parse_joinedText {first : String} {completed : List Statement}
    (parsed : parse first = .ok completed) (second : String) :
    parse (joinedText first second) =
      match parse second with
      | .ok later => .ok (completed ++ later.map (Statement.moved (.below (linesAbove first))))
      | .error fault => .error (fault.moved (.below (linesAbove first))) := by
  obtain ⟨stream, read, success⟩ := parse_eq_ok parsed
  rw [parse, parse, TokenStream.ofText_joinedText read]
  cases TokenStream.ofText second with
  | error fault => rfl
  | ok later =>
      simp only [TokenStream.statements_followedBy success, TokenStream.statements_moved]
      cases later.statements with
      | error failure => rfl
      | ok statements => rfl

/--
A text below another one that is accepted is accepted, or refused, as it is alone.
The patch of both is the patch of the first one followed by that of the second one,
and a fault of the second one is the same fault, so many lines further down.  If its
statements cannot be read, those completed before the fault come behind the
statements of the first text.
-/
theorem compile_joinedText {first : String} {patch : Patch} (accepted : compile first = .ok patch)
    (second : String) :
    (compile (joinedText first second) =
      match compile second with
      | .ok later => .ok (patch.followedBy later)
      | .error fault => .error (fault.moved (.below (linesAbove first)))) ∧
    ∀ later failure, TokenStream.ofText second = .ok later → later.statements = .error failure →
      ∃ completed stream, parse first = .ok completed ∧
        TokenStream.ofText (joinedText first second) = .ok stream ∧
        stream.statements =
          .error ⟨failure.fault.moved (.below (linesAbove first)),
            completed ++ failure.completed.map (Statement.moved (.below (linesAbove first)))⟩ := by
  obtain ⟨completed, parsed, assembled⟩ := compile_eq_ok accepted
  refine ⟨?_, ?_⟩
  · rw [compile, compile, parse_joinedText parsed]
    cases parse second with
    | error fault => rfl
    | ok later =>
        simp only [Patch.ofStatements_append assembled, Patch.ofStatements_moved]
        cases Patch.ofStatements later with
        | error fault => rfl
        | ok laterPatch => rfl
  · intro later failure laterRead refused
    obtain ⟨stream, read, success⟩ := parse_eq_ok parsed
    have joined := TokenStream.ofText_joinedText read second
    rw [laterRead] at joined
    refine ⟨completed, _, parsed, joined, ?_⟩
    rw [TokenStream.statements_followedBy success, TokenStream.statements_moved, refused]
    rfl

/-- A comment and a filter above, and below them a filter, a variable of both and a fault. -/
theorem compile_joinedText_filters :
    ∃ patch, compile "a = fir(in, 2) // above" = .ok patch ∧
      compile (joinedText "a = fir(in, 2) // above" "b = c + fir(a, 3)") =
        .ok ⟨⟨[.read 1, .load 2, .filter .fir 2 0, .write 0, .read 3, .read 0, .load 3,
          .filter .fir 2 1, .operate .add, .write 2], 2⟩, .ofNames ["a", "in", "b", "c"]⟩ ∧
      compile (joinedText "a = fir(in, 2) // above" "b = 1\nc = )") =
        .error ⟨.unexpectedToken .expression (some .closeParenthesis), ⟨3, 5⟩⟩ := by
  have compiled : compile "a = fir(in, 2) // above" =
      .ok ⟨⟨[.read 1, .load 2, .filter .fir 2 0, .write 0], 1⟩, .ofNames ["a", "in"]⟩ := by
    decide +kernel
  refine ⟨_, compiled, ?_, ?_⟩
  · have below : compile "b = c + fir(a, 3)" =
        .ok ⟨⟨[.read 1, .read 2, .load 3, .filter .fir 2 0, .operate .add, .write 0], 1⟩,
          .ofNames ["b", "c", "a"]⟩ := by
      decide +kernel
    rw [(compile_joinedText compiled "b = c + fir(a, 3)").1, below]
    decide +kernel
  · have below : compile "b = 1\nc = )" =
        .error ⟨.unexpectedToken .expression (some .closeParenthesis), ⟨2, 5⟩⟩ := by
      decide +kernel
    rw [(compile_joinedText compiled "b = 1\nc = )").1, below]
    rfl

end SignalPatch
