import SignalPatch.Proofs.Language.ReadersAgree
import SignalPatch.Proofs.Language.StuckReaders

/-!
# What readers call

While the statements of a text are read, readers call each other and loops go round.  Here
every such call is told: which readers one calls with what it has made of the parser, where
that is nested one level deeper, and where a term of a statement is met.  A reader fails
exactly if one that it calls does, if a term that it meets is one too many, if it would nest
too deeply, or if a token is not what it asks for.
-/

namespace SignalPatch

/-- What encloses that which is nested one level deeper. -/
inductive Enclosure where
  | parentheses | arguments | negation | exponent
deriving DecidableEq

/-- What is to be read by a reader, or by what remains of the loop of one. -/
inductive Task where
  /-- The statements behind those completed. -/
  | statements (turns : Nat) (completed : Array Statement)
  | separators (turns : Nat)
  | statement
  | phrase (level : Level)
  /-- Further operands of a level behind a left one. -/
  | chain (level : Level) (turns : Nat) (left : Expression)
  | call (name : String) (position : Position)
  | arguments
  /-- The arguments behind those before. -/
  | moreArguments (turns : Nat) (before : Array Expression)

namespace Task

/-- Whether a task is what remains of a loop. -/
def isLoop : Task → Bool
  | statements .. | separators _ | chain .. | moreArguments .. => true
  | statement | phrase _ | call .. | arguments => false

/-- Whether a task is about whole statements, around which nothing is nested. -/
def isOutermost : Task → Bool
  | statements .. | separators _ | statement => true
  | phrase _ | chain .. | call .. | arguments | moreArguments .. => false

/-- What a reader does to the parser, where so many more levels may be nested. -/
def reading (levels : Nat) : Task → Parsing Unit
  | statements turns completed => fun parser =>
      match Parser.statements turns completed parser with
      | .ok _ after => .ok () after
      | .error failure after => .error failure.fault after
  | separators turns => modify (Parser.skipSeparators turns)
  | statement => discard Parser.statement
  | phrase level => discard (Parser.ofLevel (.ofLevels levels) level)
  | chain level turns left =>
      discard (Parser.chain (Parser.ofLevel (.ofLevels levels) level) level.operator? turns left)
  | call name position => discard (Parser.call (.ofLevels levels) name position)
  | arguments => discard (Parser.arguments (.ofLevels levels))
  | moreArguments turns before =>
      discard (Parser.moreArguments (Parser.expression (.ofLevels levels)) turns before)

end Task

namespace Parser

/-- Whether a reader fails with a fault. -/
def Fails {Phrase : Type} (reading : Parsing Phrase) (parser : Parser) (fault : Fault) : Prop :=
  ∃ after, reading parser = .error fault after

section Failing

variable {First Phrase : Type} {first : Parsing First} {next : First → Parsing Phrase}
  {reading : Parsing Phrase} {parser after : Parser} {fault : Fault}

theorem fails_bind :
    Fails (first >>= next) parser fault ↔
      Fails first parser fault ∨
        ∃ phrase after, first parser = .ok phrase after ∧ Fails (next phrase) after fault := by
  constructor
  · rintro ⟨last, failed⟩
    cases firstEq : first parser with
    | ok phrase after =>
        rw [bind_of_ok firstEq] at failed
        exact .inr ⟨phrase, after, rfl, last, failed⟩
    | error other after =>
        rw [bind_of_error firstEq] at failed
        cases failed
        exact .inl ⟨_, firstEq⟩
  · rintro (⟨last, failed⟩ | ⟨phrase, after, firstEq, last, failed⟩)
    · exact ⟨last, bind_of_error failed⟩
    · exact ⟨last, (bind_of_ok firstEq).trans failed⟩

@[simp]
theorem not_fails_pure {phrase : Phrase} : ¬ Fails (pure phrase) parser fault := by
  rintro ⟨_, failed⟩
  cases failed

@[simp]
theorem fails_discard : Fails (discard reading) parser fault ↔ Fails reading parser fault := by
  change Fails (reading >>= fun _ => pure ()) parser fault ↔ _
  simp only [fails_bind, not_fails_pure, and_false, exists_false, or_false]

@[simp]
theorem fails_get_bind {next : Parser → Parsing Phrase} :
    Fails (get >>= next) parser fault ↔ Fails (next parser) parser fault :=
  .rfl

@[simp]
theorem fails_advance_bind {next : Unit → Parsing Phrase} :
    Fails (advance >>= next) parser fault ↔ Fails (next ()) parser.advanced fault :=
  .rfl

theorem fails_countTerm :
    Fails countTerm parser fault ↔
      maxTerms ≤ parser.terms ∧ fault = ⟨.tooManyTerms, parser.next.position⟩ := by
  rcases Nat.lt_or_ge parser.terms maxTerms with few | full
  · simp [Fails, countTerm_of_lt few, Nat.not_le.mpr few]
  · simp [Fails, countTerm_of_full full, full, eq_comm]

/-- A term is counted and passed before what is behind it is read. -/
theorem fails_count_bind :
    Fails (countTerm >>= fun _ => advance >>= fun _ => reading) parser fault ↔
      (maxTerms ≤ parser.terms ∧ fault = ⟨.tooManyTerms, parser.next.position⟩) ∨
        ∃ counted, countTerm parser = .ok () counted ∧ Fails reading counted.advanced fault := by
  rw [fails_bind, fails_countTerm]
  exact or_congr .rfl ⟨fun ⟨_, counted, count, failed⟩ => ⟨counted, count, failed⟩,
    fun ⟨counted, count, failed⟩ => ⟨(), counted, count, failed⟩⟩

theorem fails_nested :
    Fails (nested reading) parser fault ↔
      (maxNesting ≤ parser.depth ∧ fault = ⟨.nestedTooDeeply, parser.next.position⟩) ∨
        (parser.depth < maxNesting ∧ Fails reading parser.deeper fault) := by
  rcases Nat.lt_or_ge parser.depth maxNesting with within | full
  · have noRefusal : ¬ maxNesting ≤ parser.depth := Nat.not_le.mpr within
    simp only [noRefusal, false_and, false_or, within, true_and, Fails, nested, if_false]
    cases reading parser.deeper <;> simp
  · have noRoom : ¬ parser.depth < maxNesting := Nat.not_lt.mpr full
    simp [Fails, nested, refuse, full, noRoom, eq_comm]

theorem isLimit_of_unexpected {wanted : Wanted}
    (failed : Fails (unexpected wanted : Parsing Phrase) parser fault) :
    fault.cause.isLimit = false := by
  obtain ⟨_, failed⟩ := failed
  cases failed
  rfl

theorem isLimit_of_expect {kind : TokenKind} (failed : Fails (expect kind) parser fault) :
    fault.cause.isLimit = false := by
  rw [expect, fails_get_bind] at failed
  split at failed
  · obtain ⟨_, failed⟩ := failed
    cases failed
  · exact isLimit_of_unexpected failed

theorem fails_statement_of_body (failed : Fails statementBody parser.uncounted fault) :
    Fails statement parser fault :=
  fails_bind.mpr (.inr ⟨(), _, rfl, fails_bind.mpr (.inl failed)⟩)

theorem fails_body_of_statement (failed : Fails statement parser fault) :
    Fails statementBody parser.uncounted fault ∨ fault.cause.isLimit = false := by
  rcases fails_bind.mp failed with ⟨_, notModified⟩ | ⟨_, _, modified, failed⟩
  · cases notModified
  · cases modified
    rcases fails_bind.mp failed with bodyFailed | ⟨_, _, _, unended⟩
    · exact .inl bodyFailed
    · rw [fails_get_bind] at unended
      split at unended
      · exact absurd unended not_fails_pure
      · exact absurd unended not_fails_pure
      · exact .inr (isLimit_of_unexpected unended)

theorem fails_statementBody_of_name {target : String}
    (isName : parser.next.kind = some (.name target))
    (equals : parser.kindAfterNext? = some (some .equals)) :
    Fails statementBody parser fault ↔
      Fails (expression .outermost) parser.advanced.advanced fault := by
  rw [statementBody, fails_get_bind]
  simp only [isName, equals]
  rw [fails_advance_bind, fails_advance_bind, fails_bind]
  simp

theorem fails_statementBody_of_bare (noAssignment : ¬ parser.Assigns) :
    Fails statementBody parser fault ↔ Fails (expression .outermost) parser fault := by
  rw [Fails, statementBody_of_bare noAssignment]
  exact fails_bind.trans (by simp)

theorem fails_primary_of_call {inner : Inner} {head : CallHead} {counted : Parser}
    (isHead : parser.next.kind = some head.kind) (count : countTerm parser = .ok () counted)
    (opens : counted.advanced.nextIs .openParenthesis = true)
    (failed : Fails (call inner head.called parser.position) counted.advanced fault) :
    Fails (primary inner) parser fault := by
  rw [primary, fails_get_bind, isHead]
  cases head with
  | name text =>
      refine fails_count_bind.mpr (.inr ⟨counted, count, ?_⟩)
      rw [fails_get_bind, if_pos opens]
      exact failed
  | builtin function =>
      refine fails_count_bind.mpr (.inr ⟨counted, count, ?_⟩)
      rw [fails_get_bind, if_pos opens]
      exact failed

end Failing

end Parser

/-- A level whose phrases are chains of those of another level. -/
inductive Level.Chains : Level → Level → Prop where
  | term : Chains .term .factor
  | expression : Chains .expression .term

/-- A reader of chains reads a first operand, and then goes on behind it. -/
theorem Level.Chains.ofLevel_eq {upper lower : Level} (chains : upper.Chains lower)
    (inner : Parser.Inner) :
    Parser.ofLevel inner upper =
      Parser.ofLevel inner lower >>= fun first => get >>= fun parser : Parser =>
        Parser.chain (Parser.ofLevel inner lower) lower.operator? parser.remaining first := by
  cases chains with
  | term => rw [← Parser.multiplicative?_eq]; rfl
  | expression => rw [← Parser.additive?_eq]; rfl

namespace Task

open SignalPatch.Parser

/-- A task whose reader is called by that of another one, not nested more deeply. -/
inductive Goes : Nat → Task → Parser → Task → Parser → Prop where
  | separators {turns : Nat} {completed : Array Statement} {parser : Parser} :
      Goes maxNesting (.statements (turns + 1) completed) parser
        (.separators parser.remaining) parser
  | separator {turns : Nat} {parser : Parser} (next : parser.nextIs .separator = true) :
      Goes maxNesting (.separators (turns + 1)) parser (.separators turns) parser.advanced
  | statement {turns : Nat} {completed : Array Statement} {parser : Parser}
      (more : (skipSeparators parser.remaining parser).isAtEnd = false) :
      Goes maxNesting (.statements (turns + 1) completed) parser .statement
        (skipSeparators parser.remaining parser)
  | nextStatement {turns : Nat} {completed : Array Statement} {parser after : Parser}
      {statement : Statement} (more : (skipSeparators parser.remaining parser).isAtEnd = false)
      (read : Parser.statement (skipSeparators parser.remaining parser) = .ok statement after) :
      Goes maxNesting (.statements (turns + 1) completed) parser
        (.statements turns (completed.push statement)) after
  | assigned {parser : Parser} {target : String}
      (isName : parser.next.kind = some (.name target))
      (equals : parser.kindAfterNext? = some (some .equals)) :
      Goes maxNesting .statement parser (.phrase .expression) parser.uncounted.advanced.advanced
  | bare {parser : Parser} (noAssignment : ¬ parser.Assigns) :
      Goes maxNesting .statement parser (.phrase .expression) parser.uncounted
  | first {levels : Nat} {upper lower : Level} {parser : Parser} (chains : upper.Chains lower) :
      Goes levels (.phrase upper) parser (.phrase lower) parser
  | others {levels : Nat} {upper lower : Level} {parser after : Parser} {tree : Expression}
      (chains : upper.Chains lower)
      (read : ofLevel (.ofLevels levels) lower parser = .ok tree after) :
      Goes levels (.phrase upper) parser (.chain lower after.remaining tree) after
  | operand {levels : Nat} {level : Level} {turns : Nat} {left : Expression}
      {parser counted : Parser} {operator : BinaryOperator}
      (joins : parser.next.kind.bind level.operator? = some operator)
      (count : countTerm parser = .ok () counted) :
      Goes levels (.chain level (turns + 1) left) parser (.phrase level) counted.advanced
  | nextOperand {levels : Nat} {level : Level} {turns : Nat} {left right : Expression}
      {parser counted after : Parser} {operator : BinaryOperator}
      (joins : parser.next.kind.bind level.operator? = some operator)
      (count : countTerm parser = .ok () counted)
      (read : ofLevel (.ofLevels levels) level counted.advanced = .ok right after) :
      Goes levels (.chain level (turns + 1) left) parser
        (.chain level turns (.binary operator left right parser.position)) after
  | base {levels : Nat} {parser : Parser} :
      Goes levels (.phrase .factor) parser (.phrase .signed) parser
  | unsigned {levels : Nat} {parser : Parser} (noMinus : parser.nextIs .minus = false) :
      Goes levels (.phrase .signed) parser (.phrase .primary) parser
  | call {levels : Nat} {parser counted : Parser} (head : CallHead)
      (isHead : parser.next.kind = some head.kind)
      (count : countTerm parser = .ok () counted)
      (opens : counted.advanced.nextIs .openParenthesis = true) :
      Goes levels (.phrase .primary) parser (.call head.called parser.position) counted.advanced
  | argument {levels : Nat} {parser : Parser} :
      Goes levels .arguments parser (.phrase .expression) parser
  | moreArguments {levels : Nat} {parser after : Parser} {tree : Expression}
      (read : expression (.ofLevels levels) parser = .ok tree after) :
      Goes levels .arguments parser (.moreArguments after.remaining #[tree]) after
  | anotherArgument {levels : Nat} {turns : Nat} {before : Array Expression} {parser : Parser}
      (comma : parser.nextIs .comma = true) :
      Goes levels (.moreArguments (turns + 1) before) parser (.phrase .expression) parser.advanced
  | nextArgument {levels : Nat} {turns : Nat} {before : Array Expression} {parser after : Parser}
      {tree : Expression} (comma : parser.nextIs .comma = true)
      (read : expression (.ofLevels levels) parser.advanced = .ok tree after) :
      Goes levels (.moreArguments (turns + 1) before) parser
        (.moreArguments turns (before.push tree)) after

/-- A task that is to be nested one level deeper than what it is part of, and what encloses it. -/
inductive Opens (levels : Nat) : Task → Parser → Enclosure → Task → Parser → Prop where
  | parentheses {parser : Parser} (next : parser.next.kind = some .openParenthesis) :
      Opens levels (.phrase .primary) parser .parentheses (.phrase .expression) parser.advanced
  | arguments {parser opened : Parser} {name : String} {position : Position}
      (opening : expect .openParenthesis parser = .ok () opened) :
      Opens levels (.call name position) parser .arguments .arguments opened
  | negation {parser counted : Parser} (minus : parser.nextIs .minus = true)
      (count : countTerm parser = .ok () counted) :
      Opens levels (.phrase .signed) parser .negation (.phrase .primary) counted.advanced
  | exponent {parser after counted : Parser} {base : Expression}
      (read : signed (.ofLevels levels) parser = .ok base after)
      (caret : after.nextIs .caret = true) (count : countTerm after = .ok () counted) :
      Opens levels (.phrase .factor) parser .exponent (.phrase .factor) counted.advanced

/-- A task whose reader meets a term, a value or a name or an operator, and where it does. -/
inductive Meets (levels : Nat) : Task → Parser → Parser → Prop where
  | number {parser : Parser} {value : Sample} (next : parser.next.kind = some (.number value)) :
      Meets levels (.phrase .primary) parser parser
  | name {parser : Parser} (head : CallHead) (isHead : parser.next.kind = some head.kind) :
      Meets levels (.phrase .primary) parser parser
  | minus {parser : Parser} (minus : parser.nextIs .minus = true) :
      Meets levels (.phrase .signed) parser parser
  | caret {parser after : Parser} {base : Expression}
      (read : signed (.ofLevels levels) parser = .ok base after)
      (caret : after.nextIs .caret = true) :
      Meets levels (.phrase .factor) parser after
  | operator {level : Level} {turns : Nat} {left : Expression} {parser : Parser}
      {operator : BinaryOperator} (joins : parser.next.kind.bind level.operator? = some operator) :
      Meets levels (.chain level (turns + 1) left) parser parser


section Failing

variable {Phrase : Type} {levels : Nat} {task next : Task} {parser nextParser : Parser}
  {fault : Fault}

theorem fails_statements {turns : Nat} {completed : Array Statement} :
    Fails ((statements turns completed).reading levels) parser fault ↔
      ∃ before after, Parser.statements turns completed parser = .error ⟨fault, before⟩ after := by
  simp only [Fails, reading]
  cases Parser.statements turns completed parser with
  | ok => simp
  | error failure after =>
      obtain ⟨other, before⟩ := failure
      simp

/-- A fault of a reader that is called is a fault of the one that calls it. -/
theorem Goes.fails (goes : Goes levels task parser next nextParser)
    (failed : Fails (next.reading levels) nextParser fault) :
    Fails (task.reading levels) parser fault := by
  cases goes with
  | separators | separator =>
      obtain ⟨_, failed⟩ := failed
      cases failed
  | @statement turns completed _ more =>
      obtain ⟨after, failed⟩ := fails_discard.mp failed
      refine fails_statements.mpr ⟨completed.toList, after, ?_⟩
      rw [statements_of_not_isAtEnd (ne_true_of_eq_false more), failed]
  | nextStatement more read =>
      obtain ⟨completed, after, failed⟩ := fails_statements.mp failed
      refine fails_statements.mpr ⟨completed, after, ?_⟩
      rw [statements_of_not_isAtEnd (ne_true_of_eq_false more), read]
      exact failed
  | assigned isName equals =>
      have valueFailed := fails_discard.mp failed
      refine fails_discard.mpr (fails_statement_of_body ?_)
      rw [fails_statementBody_of_name (show parser.uncounted.next.kind = _ from isName) equals]
      exact valueFailed
  | bare noAssignment =>
      have valueFailed := fails_discard.mp failed
      refine fails_discard.mpr (fails_statement_of_body ?_)
      rw [fails_statementBody_of_bare (show ¬ parser.uncounted.Assigns from noAssignment)]
      exact valueFailed
  | first chains =>
      have firstFailed := fails_discard.mp failed
      refine fails_discard.mpr ?_
      rw [chains.ofLevel_eq]
      exact fails_bind.mpr (.inl firstFailed)
  | others chains read =>
      have othersFailed := fails_discard.mp failed
      refine fails_discard.mpr ?_
      rw [chains.ofLevel_eq]
      exact fails_bind.mpr (.inr ⟨_, _, read, othersFailed⟩)
  | operand joins count =>
      have operandFailed := fails_discard.mp failed
      refine fails_discard.mpr ?_
      rw [Parser.chain, fails_get_bind]
      simp only [joins]
      exact fails_count_bind.mpr (.inr ⟨_, count, fails_bind.mpr (.inl operandFailed)⟩)
  | nextOperand joins count read =>
      have othersFailed := fails_discard.mp failed
      refine fails_discard.mpr ?_
      rw [Parser.chain, fails_get_bind]
      simp only [joins]
      exact fails_count_bind.mpr
        (.inr ⟨_, count, fails_bind.mpr (.inr ⟨_, _, read, othersFailed⟩)⟩)
  | base => exact fails_discard.mpr (fails_bind.mpr (.inl (fails_discard.mp failed)))
  | unsigned noMinus =>
      have primaryFailed := fails_discard.mp failed
      refine fails_discard.mpr ?_
      simp only [ofLevel, signed, fails_get_bind, noMinus, Bool.false_eq_true, if_false]
      exact primaryFailed
  | call head isHead count opens =>
      exact fails_discard.mpr (fails_primary_of_call isHead count opens (fails_discard.mp failed))
  | argument => exact fails_discard.mpr (fails_bind.mpr (.inl (fails_discard.mp failed)))
  | moreArguments read =>
      exact fails_discard.mpr (fails_bind.mpr (.inr ⟨_, _, read, fails_discard.mp failed⟩))
  | anotherArgument comma =>
      have argumentFailed := fails_discard.mp failed
      refine fails_discard.mpr ?_
      rw [Parser.moreArguments, fails_get_bind, if_pos comma, fails_advance_bind]
      exact fails_bind.mpr (.inl argumentFailed)
  | nextArgument comma read =>
      have othersFailed := fails_discard.mp failed
      refine fails_discard.mpr ?_
      rw [Parser.moreArguments, fails_get_bind, if_pos comma, fails_advance_bind]
      exact fails_bind.mpr (.inr ⟨_, _, read, othersFailed⟩)

/-- Whether the reader of a task fails where it is to be nested one level deeper. -/
def FailsNested (task : Task) (parser : Parser) (fault : Fault) : Nat → Prop
  | 0 => fault = ⟨.nestedTooDeeply, parser.next.position⟩
  | levels + 1 =>
      (maxNesting ≤ parser.depth ∧ fault = ⟨.nestedTooDeeply, parser.next.position⟩) ∨
        (parser.depth < maxNesting ∧ Fails (task.reading levels) parser.deeper fault)

theorem fails_nested_refuse :
    Fails (nested (refuse .nestedTooDeeply : Parsing Phrase)) parser fault ↔
      fault = ⟨.nestedTooDeeply, parser.next.position⟩ := by
  rw [fails_nested]
  rcases Nat.lt_or_ge parser.depth maxNesting with within | full
  · simp only [Nat.not_le.mpr within, false_and, false_or, within, true_and]
    constructor
    · rintro ⟨_, failed⟩
      cases failed
      rfl
    · rintro rfl
      exact ⟨_, rfl⟩
  · simp [full, Nat.not_lt.mpr full]

/-- The readers of what is nested fail as they do one level deeper, if there is one. -/
theorem fails_nested_ofLevels (levels : Nat) (parser : Parser) (fault : Fault) :
    (Fails (nested (Inner.ofLevels levels).expression) parser fault ↔
        FailsNested (.phrase .expression) parser fault levels) ∧
      (Fails (nested (Inner.ofLevels levels).primary) parser fault ↔
        FailsNested (.phrase .primary) parser fault levels) ∧
      (Fails (nested (Inner.ofLevels levels).factor) parser fault ↔
        FailsNested (.phrase .factor) parser fault levels) ∧
      (Fails (nested (Inner.ofLevels levels).arguments) parser fault ↔
        FailsNested .arguments parser fault levels) := by
  cases levels with
  | zero =>
      exact ⟨fails_nested_refuse, fails_nested_refuse, fails_nested_refuse, fails_nested_refuse⟩
  | succ levels =>
      simp only [FailsNested, reading, fails_discard, fails_nested, Inner.ofLevels, ofLevel,
        and_self]

/-- A fault of what is nested is a fault of what it is nested in. -/
theorem Opens.fails {enclosure : Enclosure}
    (opens : Opens levels task parser enclosure next nextParser)
    (failed : FailsNested next nextParser fault levels) :
    Fails (task.reading levels) parser fault := by
  cases opens with
  | parentheses parenthesis =>
      have innerFailed := (fails_nested_ofLevels levels _ _).1.mpr failed
      refine fails_discard.mpr ?_
      rw [ofLevel, primary, fails_get_bind, parenthesis]
      exact fails_bind.mpr (.inr ⟨(), _, rfl, fails_bind.mpr (.inl innerFailed)⟩)
  | arguments opening =>
      have innerFailed := (fails_nested_ofLevels levels _ _).2.2.2.mpr failed
      exact fails_discard.mpr
        (fails_bind.mpr (.inr ⟨(), _, opening, fails_bind.mpr (.inl innerFailed)⟩))
  | negation minus count =>
      have innerFailed := (fails_nested_ofLevels levels _ _).2.1.mpr failed
      refine fails_discard.mpr ?_
      rw [ofLevel, signed, fails_get_bind, if_pos minus]
      exact fails_count_bind.mpr (.inr ⟨_, count, fails_bind.mpr (.inl innerFailed)⟩)
  | exponent read caret count =>
      have innerFailed := (fails_nested_ofLevels levels _ _).2.2.1.mpr failed
      refine fails_discard.mpr (fails_bind.mpr (.inr ⟨_, _, read, ?_⟩))
      rw [fails_get_bind, if_pos caret]
      exact fails_count_bind.mpr (.inr ⟨_, count, fails_bind.mpr (.inl innerFailed)⟩)

/-- One term too many is a fault of the reader that meets it, at that term. -/
theorem Meets.fails {meeting : Parser} (meets : Meets levels task parser meeting)
    (full : maxTerms ≤ meeting.terms) :
    Fails (task.reading levels) parser ⟨.tooManyTerms, meeting.next.position⟩ := by
  have refused : ∀ {Phrase : Type} {reading : Parsing Phrase},
      Fails (countTerm >>= fun _ => advance >>= fun _ => reading) meeting
        ⟨.tooManyTerms, meeting.next.position⟩ :=
    fails_count_bind.mpr (.inl ⟨full, rfl⟩)
  cases meets with
  | number isNumber =>
      refine fails_discard.mpr ?_
      rw [ofLevel, primary, fails_get_bind, isNumber]
      exact refused
  | name head isHead =>
      refine fails_discard.mpr ?_
      rw [ofLevel, primary, fails_get_bind, isHead]
      cases head <;> exact refused
  | minus isMinus =>
      refine fails_discard.mpr ?_
      rw [ofLevel, signed, fails_get_bind, if_pos isMinus]
      exact refused
  | caret read isCaret =>
      refine fails_discard.mpr (fails_bind.mpr (.inr ⟨_, _, read, ?_⟩))
      rw [fails_get_bind, if_pos isCaret]
      exact refused
  | operator joins =>
      refine fails_discard.mpr ?_
      rw [Parser.chain, fails_get_bind]
      simp only [joins]
      exact refused

/-- Why the reader of a task fails. -/
inductive Blames (levels : Nat) (task : Task) (parser : Parser) (fault : Fault) : Prop where
  | tooMany {meeting : Parser} (meets : Meets levels task parser meeting)
      (full : maxTerms ≤ meeting.terms) (fault_eq : fault = ⟨.tooManyTerms, meeting.next.position⟩)
  | goes {next : Task} {nextParser : Parser} (goes : Goes levels task parser next nextParser)
      (failed : Fails (next.reading levels) nextParser fault)
  | opens {enclosure : Enclosure} {inner : Task} {innerParser : Parser}
      (opens : Opens levels task parser enclosure inner innerParser)
      (failed : FailsNested inner innerParser fault levels)
  | refused (noLimit : fault.cause.isLimit = false)

theorem blames_statements {turns : Nat} {completed : Array Statement}
    (failed : Fails ((statements turns completed).reading maxNesting) parser fault) :
    Blames maxNesting (statements turns completed) parser fault := by
  obtain ⟨before, after, failed⟩ := fails_statements.mp failed
  cases turns with
  | zero => cases failed
  | succ turns =>
      cases atEnd : (skipSeparators parser.remaining parser).isAtEnd with
      | true =>
          obtain ⟨_, _, succeeded⟩ := statements_of_isAtEnd (turns + 1) completed atEnd
          rw [succeeded] at failed
          cases failed
      | false =>
          rw [statements_of_not_isAtEnd (ne_true_of_eq_false atEnd)] at failed
          split at failed
          · rename_i read
            exact .goes (.nextStatement atEnd read) (fails_statements.mpr ⟨_, _, failed⟩)
          · rename_i startFailed
            cases failed
            exact .goes (.statement atEnd) (fails_discard.mpr ⟨_, startFailed⟩)

theorem blames_statement (failed : Fails (statement.reading maxNesting) parser fault) :
    Blames maxNesting statement parser fault := by
  rcases fails_body_of_statement (fails_discard.mp failed) with bodyFailed | noLimit
  · by_cases assigns : parser.uncounted.Assigns
    · obtain ⟨head, isHead, equals⟩ := assigns
      cases head with
      | name target =>
          rw [fails_statementBody_of_name isHead equals] at bodyFailed
          exact .goes (.assigned isHead equals) (fails_discard.mpr bodyFailed)
      | builtin function =>
          rw [statementBody, fails_get_bind, isHead, equals] at bodyFailed
          obtain ⟨_, bodyFailed⟩ := bodyFailed
          cases bodyFailed
          exact .refused rfl
    · rw [fails_statementBody_of_bare assigns] at bodyFailed
      exact .goes (.bare assigns) (fails_discard.mpr bodyFailed)
  · exact .refused noLimit

theorem blames_of_chains {upper lower : Level} (chains : upper.Chains lower)
    (failed : Fails ((phrase upper).reading levels) parser fault) :
    Blames levels (phrase upper) parser fault := by
  have failed := fails_discard.mp failed
  rw [chains.ofLevel_eq, fails_bind] at failed
  rcases failed with firstFailed | ⟨_, _, read, othersFailed⟩
  · exact .goes (.first chains) (fails_discard.mpr firstFailed)
  · exact .goes (.others chains read) (fails_discard.mpr othersFailed)

theorem blames_factor (failed : Fails ((phrase .factor).reading levels) parser fault) :
    Blames levels (phrase .factor) parser fault := by
  have failed := fails_discard.mp failed
  rw [ofLevel, factor, fails_bind] at failed
  rcases failed with baseFailed | ⟨_, after, read, behindFailed⟩
  · exact .goes .base (fails_discard.mpr baseFailed)
  · rw [fails_get_bind] at behindFailed
    split at behindFailed
    · rename_i caret
      rcases fails_count_bind.mp behindFailed with ⟨full, faultEq⟩ | ⟨counted, count, innerFailed⟩
      · exact .tooMany (.caret read caret) full faultEq
      · rcases fails_bind.mp innerFailed with innerFailed | ⟨_, _, _, returned⟩
        · exact .opens (.exponent read caret count)
            ((fails_nested_ofLevels levels _ _).2.2.1.mp innerFailed)
        · exact absurd returned not_fails_pure
    · exact absurd behindFailed not_fails_pure

theorem blames_signed (failed : Fails ((phrase .signed).reading levels) parser fault) :
    Blames levels (phrase .signed) parser fault := by
  have failed := fails_discard.mp failed
  rw [ofLevel, signed, fails_get_bind] at failed
  split at failed
  · rename_i minus
    rcases fails_count_bind.mp failed with ⟨full, faultEq⟩ | ⟨counted, count, operandFailed⟩
    · exact .tooMany (.minus minus) full faultEq
    · rcases fails_bind.mp operandFailed with innerFailed | ⟨_, _, _, returned⟩
      · exact .opens (.negation minus count)
          ((fails_nested_ofLevels levels _ _).2.1.mp innerFailed)
      · exact absurd returned not_fails_pure
  · rename_i noMinus
    exact .goes (.unsigned (eq_false_of_ne_true noMinus)) (fails_discard.mpr failed)

theorem blames_call {name : String} {position : Position}
    (failed : Fails ((call name position).reading levels) parser fault) :
    Blames levels (call name position) parser fault := by
  have failed := fails_discard.mp failed
  rw [Parser.call, fails_bind] at failed
  rcases failed with unopened | ⟨_, opened, opening, failed⟩
  · exact .refused (isLimit_of_expect unopened)
  · rcases fails_bind.mp failed with innerFailed | ⟨_, _, _, failed⟩
    · exact .opens (.arguments opening) ((fails_nested_ofLevels levels _ _).2.2.2.mp innerFailed)
    · rcases fails_bind.mp failed with unclosed | ⟨_, _, _, returned⟩
      · exact .refused (isLimit_of_expect unclosed)
      · exact absurd returned not_fails_pure

/-- A name or a function is counted and passed, and called if a parenthesis is behind it. -/
theorem blames_named (head : CallHead) (isHead : parser.next.kind = some head.kind)
    {otherwise : Parsing Expression}
    (noLimit : ∀ after, Fails otherwise after fault → fault.cause.isLimit = false)
    (failed : Fails (countTerm >>= fun _ => advance >>= fun _ => get >>= fun after : Parser =>
      if after.nextIs .openParenthesis then
        Parser.call (.ofLevels levels) head.called parser.position
      else otherwise) parser fault) :
    Blames levels (phrase .primary) parser fault := by
  rcases fails_count_bind.mp failed with ⟨full, faultEq⟩ | ⟨counted, count, failed⟩
  · exact .tooMany (.name head isHead) full faultEq
  · rw [fails_get_bind] at failed
    split at failed
    · rename_i opens
      exact .goes (.call head isHead count opens) (fails_discard.mpr failed)
    · exact .refused (noLimit _ failed)

theorem blames_primary (failed : Fails ((phrase .primary).reading levels) parser fault) :
    Blames levels (phrase .primary) parser fault := by
  have failed := fails_discard.mp failed
  rw [ofLevel, primary, fails_get_bind] at failed
  cases isNext : parser.next.kind with
  | none =>
      rw [isNext] at failed
      exact .refused (isLimit_of_unexpected failed)
  | some kind =>
      rw [isNext] at failed
      cases kind with
      | number value =>
          rcases fails_count_bind.mp failed with ⟨full, faultEq⟩ | ⟨_, _, returned⟩
          · exact .tooMany (.number isNext) full faultEq
          · exact absurd returned not_fails_pure
      | name text =>
          exact blames_named (.name text) isNext
            (fun _ returned => absurd returned not_fails_pure) failed
      | builtin function =>
          exact blames_named (.builtin function) isNext
            (fun _ refused => isLimit_of_unexpected refused) failed
      | openParenthesis =>
          rcases fails_bind.mp failed with ⟨_, notAdvanced⟩ | ⟨_, _, advanced, failed⟩
          · cases notAdvanced
          · cases advanced
            rcases fails_bind.mp failed with innerFailed | ⟨_, _, _, failed⟩
            · exact .opens (.parentheses isNext)
                ((fails_nested_ofLevels levels _ _).1.mp innerFailed)
            · rcases fails_bind.mp failed with unclosed | ⟨_, _, _, returned⟩
              · exact .refused (isLimit_of_expect unclosed)
              · exact absurd returned not_fails_pure
      | _ => exact .refused (isLimit_of_unexpected failed)

theorem blames_chain {level : Level} {turns : Nat} {left : Expression}
    (failed : Fails ((chain level turns left).reading levels) parser fault) :
    Blames levels (chain level turns left) parser fault := by
  have failed := fails_discard.mp failed
  cases turns with
  | zero => exact absurd failed not_fails_pure
  | succ turns =>
      rw [Parser.chain, fails_get_bind] at failed
      cases joins : parser.next.kind.bind level.operator? with
      | none =>
          rw [joins] at failed
          exact absurd failed not_fails_pure
      | some operator =>
          rw [joins] at failed
          rcases fails_count_bind.mp failed with ⟨full, faultEq⟩ | ⟨counted, count, failed⟩
          · exact .tooMany (.operator joins) full faultEq
          · rcases fails_bind.mp failed with operandFailed | ⟨_, _, read, othersFailed⟩
            · exact .goes (.operand joins count) (fails_discard.mpr operandFailed)
            · exact .goes (.nextOperand joins count read) (fails_discard.mpr othersFailed)

theorem blames_arguments (failed : Fails (arguments.reading levels) parser fault) :
    Blames levels arguments parser fault := by
  rcases fails_bind.mp (fails_discard.mp failed) with firstFailed | ⟨_, _, read, othersFailed⟩
  · exact .goes .argument (fails_discard.mpr firstFailed)
  · exact .goes (.moreArguments read) (fails_discard.mpr othersFailed)

theorem blames_moreArguments {turns : Nat} {before : Array Expression}
    (failed : Fails ((moreArguments turns before).reading levels) parser fault) :
    Blames levels (moreArguments turns before) parser fault := by
  have failed := fails_discard.mp failed
  cases turns with
  | zero => exact absurd failed not_fails_pure
  | succ turns =>
      rw [Parser.moreArguments, fails_get_bind] at failed
      split at failed
      · rename_i comma
        rw [fails_advance_bind] at failed
        rcases fails_bind.mp failed with argumentFailed | ⟨_, _, read, othersFailed⟩
        · exact .goes (.anotherArgument comma) (fails_discard.mpr argumentFailed)
        · exact .goes (.nextArgument comma read) (fails_discard.mpr othersFailed)
      · exact absurd failed not_fails_pure

/-- A reader fails for a term too many, for its own tokens, or with a reader that it calls. -/
theorem blames_of_fails (outermost : task.isOutermost = true → levels = maxNesting)
    (failed : Fails (task.reading levels) parser fault) : Blames levels task parser fault := by
  cases task with
  | statements turns completed =>
      obtain rfl := outermost rfl
      exact blames_statements failed
  | separators turns =>
      obtain ⟨_, failed⟩ := failed
      cases failed
  | statement =>
      obtain rfl := outermost rfl
      exact blames_statement failed
  | phrase level =>
      cases level with
      | primary => exact blames_primary failed
      | signed => exact blames_signed failed
      | factor => exact blames_factor failed
      | term => exact blames_of_chains .term failed
      | expression => exact blames_of_chains .expression failed
  | chain level turns left => exact blames_chain failed
  | call name position => exact blames_call failed
  | arguments => exact blames_arguments failed
  | moreArguments turns before => exact blames_moreArguments failed

end Failing

end Task

end SignalPatch
