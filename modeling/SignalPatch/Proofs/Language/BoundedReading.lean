import SignalPatch.Proofs.Language.Emission
import SignalPatch.Proofs.Language.ReadingLimits
import SignalPatch.Proofs.Language.StatementSequence

/-!
# Reading is bounded

Whatever tokens are read, accepted or not: the readers come to an end and stay before the end
of the tokens, they are nested as deeply as parentheses, argument lists, negations and
exponents are, and no deeper than the limit, and the trees that they return are no larger than
the limit.  A text is refused for its size exactly at the first term or level beyond.
-/

namespace SignalPatch

namespace Expression

mutual

/-- How many nodes are below each other at most. -/
def height : Expression → Nat
  | literal .. | reference .. => 1
  | negate operand _ => operand.height + 1
  | binary _ left right _ => max left.height right.height + 1
  | call _ arguments _ => heightOfAll arguments + 1

def heightOfAll : List Expression → Nat
  | [] => 0
  | expression :: others => max expression.height (heightOfAll others)

end

mutual

theorem height_le_terms (source : Expression) : source.height ≤ source.terms := by
  cases source with
  | literal | reference => exact Nat.le_refl 1
  | negate operand position => exact Nat.succ_le_succ operand.height_le_terms
  | binary operator left right position =>
      have leftLe := left.height_le_terms
      have rightLe := right.height_le_terms
      simp only [height, terms]
      omega
  | call name arguments position => exact Nat.succ_le_succ (heightOfAll_le_termsOfAll arguments)

theorem heightOfAll_le_termsOfAll (sources : List Expression) :
    heightOfAll sources ≤ termsOfAll sources := by
  cases sources with
  | nil => exact Nat.le_refl 0
  | cons source others =>
      have sourceLe := source.height_le_terms
      have othersLe := heightOfAll_le_termsOfAll others
      simp only [heightOfAll, termsOfAll]
      omega

end

end Expression

/-- Whether a mark is an end, behind which nothing is read. -/
def Mark.isEnd (mark : Mark) : Bool :=
  mark.kind.isNone

def Mark.isTerm (mark : Mark) : Bool :=
  mark.kind.any TokenKind.isTerm

/-- Marks with an end among them are those of a text, with others behind its end. -/
theorem exists_stream (marks : List Mark) (ended : ∃ mark ∈ marks, mark.kind = none) :
    ∃ (stream : TokenStream) (beyond : List Mark), marks = stream.marks ++ beyond ∧
      marks.findIdx Mark.isEnd = stream.tokens.length := by
  induction marks with
  | nil =>
      obtain ⟨_, absent, _⟩ := ended
      cases absent
  | cons mark others ih =>
      obtain ⟨kind, position⟩ := mark
      cases kind with
      | none => exact ⟨⟨[], position⟩, others, rfl, rfl⟩
      | some kind =>
          obtain ⟨mark, member, isEnd⟩ := ended
          have inOthers : mark ∈ others := by
            rcases List.mem_cons.mp member with rfl | inOthers
            · cases isEnd
            · exact inOthers
          obtain ⟨stream, beyond, rfl, findEq⟩ := ih ⟨mark, inOthers, isEnd⟩
          refine ⟨⟨⟨kind, position⟩ :: stream.tokens, stream.stop⟩, beyond, rfl, ?_⟩
          rw [List.findIdx_cons, findEq]
          rfl

namespace Parser

variable {stream : TokenStream} {beyond : List Mark} {start after : Parser}

/-- The terms that are counted are those of the marks that are passed. -/
theorem countP_extract {consumed : List Token} (onStart : start.On stream beyond)
    (onAfter : after.On stream beyond)
    (passes : (start.pending stream).Passes consumed (after.pending stream)) :
    (start.marks.extract start.index after.index).countP Mark.isTerm =
      consumed.countP Token.isTerm := by
  have tokensEq : stream.tokens.drop start.index =
      consumed ++ stream.tokens.drop after.index := passes.tokens_eq
  have lengthEq : consumed.length = after.index - start.index := by
    have lengths := congrArg List.length tokensEq
    have startLe := onStart.index_le
    have afterLe := onAfter.index_le
    simp only [List.length_append, List.length_drop] at lengths
    omega
  have startLe : start.index ≤ (stream.tokens.map Token.mark).length := by
    rw [List.length_map]
    exact onStart.index_le
  rw [onStart.marks_eq, List.extract_toArray, List.countP_toArray, List.extract_eq_take_drop,
    TokenStream.marks, List.append_assoc, List.drop_append_of_le_length startLe, ← List.map_drop,
    tokensEq, List.map_append, List.append_assoc,
    List.take_left' ((List.length_map _).trans lengthEq), List.countP_map]
  rfl

/-- The loop over the statements of a text, before the first one. -/
def outset (marks : Array Mark) : Activation :=
  ⟨maxNesting, [], .statements marks.size #[], ofMarks marks⟩

/-- Whether a reader is at work at some time while marks are read. -/
def Reaches (marks : Array Mark) (activation : Activation) : Prop :=
  Relation.ReflTransGen Activation.Calls (outset marks) activation

/-- Whether the expression of a statement is read from here on. -/
def StartsValue (marks : Array Mark) (start : Parser) : Prop :=
  ∃ parser, Reaches marks ⟨maxNesting, [], .statement, parser⟩ ∧
    Task.Goes maxNesting .statement parser (.phrase .expression) start

/-- Whether a reader is at work while the expression that starts here is read. -/
def ReachesFrom (marks : Array Mark) (start : Parser) (activation : Activation) : Prop :=
  StartsValue marks start ∧
    Relation.ReflTransGen Activation.Calls ⟨maxNesting, [], .phrase .expression, start⟩ activation

/-- Behind as many terms of a statement as it may have, a reader meets another one. -/
def MeetsTermTooMany (marks : Array Mark) (position : Position) : Prop :=
  ∃ activation start meeting, ReachesFrom marks start activation ∧
    Task.Meets activation.levels activation.task activation.parser meeting ∧
    (marks.extract start.index meeting.index).countP Mark.isTerm = maxTerms ∧
    meeting.terms = maxTerms ∧ meeting.next.isTerm = true ∧ position = meeting.next.position

/-- Within as many levels as there may be, a reader opens another one, for what comes next. -/
def OpensLevelTooMany (marks : Array Mark) (position : Position) : Prop :=
  ∃ activation enclosure inner innerParser, Reaches marks activation ∧
    activation.around.length = maxNesting ∧
    Task.Opens activation.levels activation.task activation.parser enclosure inner innerParser ∧
    position = innerParser.next.position

/-- A statement that is read, whether or not another one behind it is refused. -/
def Returns (marks : Array Mark) (statement : Statement) : Prop :=
  (∃ statements, parse marks = .ok statements ∧ statement ∈ statements) ∨
    ∃ failure, parse marks = .error failure ∧ statement ∈ failure.completed

end Parser

/-- The bounds on a reader that is at work while marks are read, of which one is the first end. -/
structure Activation.Bounded (marks : Array Mark) (stop : Nat) (activation : Activation) :
    Prop where
  depth_eq : activation.parser.depth = activation.around.length
  around_le : activation.around.length ≤ maxNesting
  levels_eq : activation.levels = maxNesting - activation.parser.depth
  /-- Nothing is nested any more when a statement begins, or when one has been read. -/
  depth_eq_zero : activation.task.isOutermost = true → activation.parser.depth = 0
  index_le : activation.parser.index ≤ stop
  /-- The next mark is where the cursor is, not the last one for want of it. -/
  next_eq : marks[activation.parser.index]? = some activation.parser.next
  position_eq : activation.parser.position = activation.parser.next.position
  /-- A reader leaves the parser at the depth at which it was called, and not behind the end. -/
  left_depth : activation.left.depth = activation.parser.depth
  left_index : activation.parser.index ≤ activation.left.index ∧ activation.left.index ≤ stop
  left_next : marks[activation.left.index]? = some activation.left.next
  /-- A loop goes on with fewer tokens, at the same depth. -/
  turns : ∀ next loop, activation.Calls next → activation.task.loop? = some loop →
    next.task.loop? = some loop → next.parser.depth = activation.parser.depth ∧
      activation.parser.index < next.parser.index
  hasTurns : activation.task.HasTurns stop activation.parser
  phrases : ∀ level tree after, activation.task = .phrase level →
    Parser.ofLevel (.ofLevels activation.levels) level activation.parser = .ok tree after →
      activation.parser.index < after.index ∧
        after.terms = activation.parser.terms + tree.terms
  calls : ∀ name position tree after, activation.task = .call name position →
    Parser.call (.ofLevels activation.levels) name position activation.parser = .ok tree after →
      activation.parser.index < after.index
  arguments : ∀ trees after, activation.task = .arguments →
    Parser.arguments (.ofLevels activation.levels) activation.parser = .ok trees after →
      activation.parser.index < after.index
  statements : ∀ statement after, activation.task = .statement →
    Parser.statement activation.parser = .ok statement after →
      activation.parser.index < after.index

namespace Activation

open SignalPatch.Parser

variable {stream : TokenStream} {beyond : List Mark} {activation next : Activation}

theorem Calls.depth_of_loop {loop : Task.Loop} (placed : activation.Placed stream beyond)
    (calls : activation.Calls next) (nextLoop : next.task.loop? = some loop) :
    next.parser.depth = activation.parser.depth := by
  cases calls with
  | goes goes => exact (goes.behind placed.on placed.levels_add).1.depth_eq
  | opens opens => cases opens <;> cases nextLoop

theorem Placed.bounded (placed : activation.Placed stream beyond) :
    activation.Bounded (stream.marks ++ beyond).toArray stream.tokens.length := by
  have ⟨on, levelsAdd, depthEq, aroundEq, hasTurns⟩ := placed
  have left := placed.left
  have nextOf : ∀ {parser : Parser}, parser.On stream beyond →
      (stream.marks ++ beyond).toArray[parser.index]? = some parser.next := by
    intro parser on
    rw [← on.marks_eq, on.getElem?_index, on.next_eq]
  refine ⟨depthEq, by omega, by omega, fun outermost => ?_, on.index_le, nextOf on, ?_,
    left.depth_eq, ⟨left.index_le, left.on.index_le⟩, nextOf left.on, ?_, hasTurns, ?_, ?_, ?_, ?_⟩
  · rw [depthEq, aroundEq outermost]
    rfl
  · rw [on.position_eq, on.next_eq]
  · intro next loop calls isLoop sameLoop
    refine ⟨calls.depth_of_loop placed sameLoop, ?_⟩
    cases calls with
    | goes goes => exact goes.further_of_loop isLoop sameLoop on levelsAdd
    | opens opens => cases opens <;> cases sameLoop
  · intro level tree after _ read
    obtain ⟨token, others, passes, termsEq⟩ := on.passes_ofLevel levelsAdd level read
    have indexEq := passes.index_eq on
    rw [List.length_cons] at indexEq
    exact ⟨by omega, termsEq⟩
  · intro name position tree after _ read
    exact on.index_lt_of_call levelsAdd read
  · intro trees after _ read
    obtain ⟨token, others, passes⟩ := on.passes_arguments levelsAdd read
    have indexEq := passes.index_eq on
    rw [List.length_cons] at indexEq
    omega
  · intro statement after isStatement read
    have outermost : activation.task.isOutermost = true := by
      rw [isStatement]
      rfl
    have depthZero : activation.parser.depth = 0 := by
      rw [depthEq, aroundEq outermost]
      rfl
    exact (on.passes_statement depthZero read).2

theorem placed_outset (stream : TokenStream) (beyond : List Mark) :
    (outset (stream.marks ++ beyond).toArray).Placed stream beyond where
  on := ⟨rfl, Nat.zero_le _⟩
  levels_add := Nat.zero_add _
  depth_eq := rfl
  around_eq _ := rfl
  hasTurns :=
    have on : (ofMarks (stream.marks ++ beyond).toArray).On stream beyond := ⟨rfl, Nat.zero_le _⟩
    on.le_remaining

/-- Every reader that is ever at work is placed. -/
theorem placed_of_reaches (reached : Reaches (stream.marks ++ beyond).toArray activation) :
    activation.Placed stream beyond := by
  induction reached with
  | refl => exact placed_outset stream beyond
  | tail _ calls ih => exact ih.calls calls

/-- The terms of a statement are counted from the start of its expression. -/
def Counts (stream : TokenStream) (beyond : List Mark) (activation : Activation) : Prop :=
  ∃ start consumed, ReachesFrom (stream.marks ++ beyond).toArray start activation ∧
    start.On stream beyond ∧ start.terms = 0 ∧
    (start.pending stream).Passes consumed (activation.parser.pending stream)

theorem counts_of_calls (reached : Reaches (stream.marks ++ beyond).toArray activation)
    (counts : activation.task.isOutermost = false → activation.Counts stream beyond)
    (calls : activation.Calls next) (nextInner : next.task.isOutermost = false) :
    next.Counts stream beyond := by
  have placed := placed_of_reaches reached
  cases inner : activation.task.isOutermost with
  | false =>
      obtain ⟨start, consumed, within, onStart, noTerms, passes⟩ := counts inner
      have more : ∃ more, (activation.parser.pending stream).Passes more
          (next.parser.pending stream) := by
        cases calls with
        | goes goes =>
            obtain ⟨more, passes, _⟩ := goes.passes inner placed.on placed.levels_add
            exact ⟨more, passes.passes⟩
        | opens opens =>
            obtain ⟨token, others, passes⟩ := opens.passes placed.on placed.levels_add
            exact ⟨_, passes.passes⟩
      obtain ⟨more, morePasses⟩ := more
      exact ⟨start, consumed ++ more, ⟨within.1, within.2.tail calls⟩, onStart, noTerms,
        passes.append morePasses⟩
  | true =>
      -- the expression of a statement starts here
      cases calls with
      | @goes levels around task next parser nextParser goes =>
          have onNext := (goes.behind placed.on placed.levels_add).1.on
          obtain rfl : around = [] := placed.around_eq inner
          refine ⟨nextParser, [], ?_, onNext, ?_, .refl _⟩
          · cases goes with
            | assigned isName equals => exact ⟨⟨_, reached, .assigned isName equals⟩, .refl⟩
            | bare noAssignment => exact ⟨⟨_, reached, .bare noAssignment⟩, .refl⟩
            | separators | separator | statement | nextStatement => cases nextInner
            | _ => cases inner
          · cases goes with
            | assigned isName equals => rw [terms_advanced, terms_advanced]; rfl
            | bare noAssignment => rfl
            | separators | separator | statement | nextStatement => cases nextInner
            | _ => cases inner
      | opens opens => exact absurd (opens.isOutermost.1.symm.trans inner) nofun

theorem counts_of_reaches (reached : Reaches (stream.marks ++ beyond).toArray activation)
    (inner : activation.task.isOutermost = false) : activation.Counts stream beyond := by
  induction reached with
  | refl => cases inner
  | tail reached calls ih => exact counts_of_calls reached ih calls inner

end Activation

namespace Parser

variable {stream : TokenStream} {beyond : List Mark} {marks : Array Mark}
  {activation : Activation} {fault : Fault} {position : Position}

theorem ReachesFrom.reaches {start : Parser} (reached : ReachesFrom marks start activation) :
    Reaches marks activation := by
  obtain ⟨⟨statement, toStatement, goes⟩, path⟩ := reached
  exact (toStatement.tail (.goes goes)).trans path

theorem outset_fails_iff :
    (outset marks).Fails fault ↔ ∃ completed, parse marks = .error ⟨fault, completed⟩ := by
  rw [Activation.Fails, outset, Task.fails_statements, parse]
  cases statements marks.size #[] (ofMarks marks) with
  | ok => simp
  | error failure after => simp

theorem exists_completed (reached : Reaches marks activation) (failed : activation.Fails fault) :
    ∃ completed, parse marks = .error ⟨fault, completed⟩ :=
  outset_fails_iff.mp (Activation.fails_of_path reached failed)

theorem exists_raises
    (refused : ∃ completed, parse (stream.marks ++ beyond).toArray = .error ⟨fault, completed⟩) :
    ∃ activation, Reaches (stream.marks ++ beyond).toArray activation ∧ activation.Raises fault :=
  (Activation.placed_outset stream beyond).exists_raises (outset_fails_iff.mpr refused)

theorem tooManyTerms_iff :
    (∃ completed, parse (stream.marks ++ beyond).toArray =
      .error ⟨⟨.tooManyTerms, position⟩, completed⟩) ↔
      MeetsTermTooMany (stream.marks ++ beyond).toArray position := by
  constructor
  · intro refused
    obtain ⟨activation, reached, raises⟩ := exists_raises refused
    cases raises with
    | tooDeep opens full faultEq => cases faultEq
    | refused noLimit => cases noLimit
    | @tooMany meeting meets full faultEq =>
        have placed := Activation.placed_of_reaches reached
        obtain ⟨start, first, within, onStart, noTerms, startPasses⟩ :=
          Activation.counts_of_reaches reached meets.isOutermost
        obtain ⟨second, kind, passes, kindEq, isTerm⟩ := meets.passes placed.on placed.levels_add
        have whole := startPasses.append passes.passes
        have startTerms : (start.pending stream).terms = 0 := noTerms
        have few : meeting.terms ≤ maxTerms :=
          whole.terms_le (by rw [startTerms]; exact Nat.zero_le _)
        have termsEq : meeting.terms = (first ++ second).countP Token.isTerm := by
          have counted : meeting.terms = (start.pending stream).terms + _ := whole.terms_eq
          rw [counted, startTerms, Nat.zero_add]
        have extracted := countP_extract onStart passes.behind.on whole
        rw [onStart.marks_eq] at extracted
        refine ⟨activation, start, meeting, within, meets, by omega, by omega, ?_, ?_⟩
        · rw [Mark.isTerm, kindEq]
          exact isTerm
        · exact congrArg Fault.position faultEq
  · rintro ⟨activation, start, meeting, within, meets, _, full, _, rfl⟩
    exact exists_completed within.reaches (meets.fails (Nat.le_of_eq full.symm))

theorem nestedTooDeeply_iff :
    (∃ completed, parse (stream.marks ++ beyond).toArray =
      .error ⟨⟨.nestedTooDeeply, position⟩, completed⟩) ↔
      OpensLevelTooMany (stream.marks ++ beyond).toArray position := by
  constructor
  · intro refused
    obtain ⟨activation, reached, raises⟩ := exists_raises refused
    have placed := Activation.placed_of_reaches reached
    cases raises with
    | tooMany meets full faultEq => cases faultEq
    | refused noLimit => cases noLimit
    | @tooDeep enclosure inner innerParser opens full faultEq =>
        have innerDepth := (opens.behind placed.on placed.levels_add).1.depth_eq
        have levelsAdd := placed.levels_add
        have depthEq := placed.depth_eq
        exact ⟨activation, enclosure, inner, innerParser, reached, by omega, opens,
          congrArg Fault.position faultEq⟩
  · rintro ⟨activation, enclosure, inner, innerParser, reached, full, opens, rfl⟩
    have placed := Activation.placed_of_reaches reached
    have levelsAdd := placed.levels_add
    have depthEq := placed.depth_eq
    obtain ⟨levels, around, task, parser⟩ := activation
    obtain rfl : levels = 0 := by
      change parser.depth + levels = maxNesting at levelsAdd
      change parser.depth = around.length at depthEq
      change around.length = maxNesting at full
      omega
    exact exists_completed reached (opens.fails rfl)

/-- Whatever its cause, a fault is at a mark before the end or at the end. -/
theorem exists_index {failure : ParseFailure}
    (refused : parse (stream.marks ++ beyond).toArray = .error failure) :
    ∃ index ≤ stream.tokens.length, ∃ mark,
      (stream.marks ++ beyond).toArray[index]? = some mark ∧
        failure.fault.position = mark.position := by
  have matched := matches_statements stream beyond
  rw [parse] at refused
  generalize statements _ #[] _ = result at matched refused
  generalize Statement.readAll stream.stop stream.tokens stream.tokens #[] = outcome at matched
  cases matched with
  | ok => cases refused
  | @error _ after behind positionEq =>
      cases refused
      refine ⟨after.index, behind.on.index_le, after.next, ?_, positionEq⟩
      rw [← behind.on.marks_eq, behind.on.getElem?_index, behind.on.next_eq]

theorem Returns.exists_fits {statement : Statement}
    (returned : Returns (stream.marks ++ beyond).toArray statement) :
    ∃ sentence : Sentence, sentence.tree = statement ∧ sentence.Fits := by
  have parseEq : parse (stream.marks ++ beyond).toArray = stream.statements := by
    rw [parse_eq, stream.statements_eq]
  have fitsOf : ∀ {script : Script}, (∀ sentence ∈ script.sentences, sentence.Fits) →
      statement ∈ script.trees →
      ∃ sentence : Sentence, sentence.tree = statement ∧ sentence.Fits := by
    intro script fits member
    obtain ⟨sentence, inScript, treeEq⟩ := List.mem_map.mp member
    exact ⟨sentence, treeEq, fits sentence inScript⟩
  rw [Returns, parseEq] at returned
  rcases returned with ⟨statements, success, member⟩ | ⟨failure, refused, member⟩
  · obtain ⟨script, _, rfl, fits⟩ := TokenStream.exists_script success
    exact fitsOf fits member
  · obtain ⟨script, failing, _, behind⟩ := TokenStream.exists_refusedBehind refused
    rw [← behind.trees_eq] at member
    exact fitsOf behind.fits member

theorem Returns.terms_le {statement : Statement}
    (returned : Returns (stream.marks ++ beyond).toArray statement) :
    statement.value.terms ≤ maxTerms := by
  obtain ⟨sentence, rfl, fits⟩ := returned.exists_fits
  have few := fits.terms_le
  cases sentence <;> exact few

/--
No reader calls others for ever.  Of any marks with an end among them, none behind the first
end is next to any reader that is at work, when it is called or when it comes back.  It is
nested as deeply as there are parentheses, argument lists, negations and exponents around it,
which is not beyond the limit, and not at all before and behind a statement; the depth behind
it is that before it, whether it succeeds or fails.  No loop goes on without passing a token,
and none ends before the tokens for want of turns; what is read is at least one token, and a
phrase adds to the count the terms of its tree.  The marks are refused for too many terms
exactly if a statement has one more than the limit, and there; they are refused for their
nesting exactly if one level more than the limit is opened, and at what comes next.  Every
fault is at a mark up to the end, and the trees that are returned are not beyond the limit,
either.
-/
theorem reading_is_bounded (marks : Array Mark) (ended : ∃ mark ∈ marks, mark.kind = none) :
    Acc (fun next activation : Activation => activation.Calls next) (outset marks) ∧
    (∀ activation, Reaches marks activation →
      activation.Bounded marks (marks.findIdx Mark.isEnd)) ∧
    (∀ position,
      (∃ completed, parse marks = .error ⟨⟨.tooManyTerms, position⟩, completed⟩) ↔
        MeetsTermTooMany marks position) ∧
    (∀ position,
      (∃ completed, parse marks = .error ⟨⟨.nestedTooDeeply, position⟩, completed⟩) ↔
        OpensLevelTooMany marks position) ∧
    (∀ failure, parse marks = .error failure → ∃ index ≤ marks.findIdx Mark.isEnd, ∃ mark,
      marks[index]? = some mark ∧ failure.fault.position = mark.position) ∧
    ∀ statement, Returns marks statement →
      statement.value.height ≤ statement.value.terms ∧ statement.value.terms ≤ maxTerms := by
  obtain ⟨marks⟩ := marks
  obtain ⟨stream, beyond, rfl, findEq⟩ := exists_stream marks (by simpa using ended)
  rw [List.findIdx_toArray, findEq]
  exact ⟨(Activation.placed_outset stream beyond).acc,
    fun activation reached => (Activation.placed_of_reaches reached).bounded,
    fun _ => tooManyTerms_iff, fun _ => nestedTooDeeply_iff, fun _ => exists_index,
    fun statement returned => ⟨statement.value.height_le_terms, returned.terms_le⟩⟩

/-- In `-a; )` the name is nested in a negation, and the parenthesis does not start anything. -/
theorem reading_is_bounded_negation :
    let marks : Array Mark := #[⟨some .minus, ⟨1, 1⟩⟩, ⟨some (.name "a"), ⟨1, 2⟩⟩,
      ⟨some .separator, ⟨1, 3⟩⟩, ⟨some .closeParenthesis, ⟨1, 5⟩⟩, ⟨none, ⟨1, 6⟩⟩]
    let operand : Activation := ⟨4095, [.negation], .phrase .primary, ⟨marks, 1, 1, 1⟩⟩
    let negation : Statement := .bare (.negate (.reference "a" ⟨1, 2⟩) ⟨1, 1⟩)
    (∃ mark ∈ marks, mark.kind = none) ∧
    (Reaches marks operand ∧ operand.Bounded marks 4) ∧
    (∃ failure, parse marks = .error failure ∧ ∃ index ≤ 4, ∃ mark,
      marks[index]? = some mark ∧ failure.fault.position = mark.position) ∧
    Returns marks negation ∧ negation.value.height ≤ negation.value.terms ∧
      negation.value.terms ≤ maxTerms := by
  intro marks operand negation
  have ended : ∃ mark ∈ marks, mark.kind = none := ⟨⟨none, ⟨1, 6⟩⟩, by simp [marks], rfl⟩
  have noAssignment : ¬ (ofMarks marks).Assigns := by
    rintro ⟨head, isHead, _⟩
    cases head <;> cases isHead
  have toSigned : Reaches marks ⟨maxNesting, [], .phrase .signed, (ofMarks marks).uncounted⟩ :=
    (((((Relation.ReflTransGen.refl.tail
      (.goes (.statement rfl))).tail
      (.goes (.bare noAssignment))).tail
      (.goes (.first .expression))).tail
      (.goes (.first .term))).tail
      (.goes .base))
  have reached : Reaches marks operand :=
    toSigned.tail (.opens (.negation rfl (countTerm_of_lt (by decide))) (by decide))
  have refused : parse marks =
      .error ⟨⟨.unexpectedToken .expression (some .closeParenthesis), ⟨1, 5⟩⟩, [negation]⟩ :=
    (parse_eq ⟨[⟨.minus, ⟨1, 1⟩⟩, ⟨.name "a", ⟨1, 2⟩⟩, ⟨.separator, ⟨1, 3⟩⟩,
      ⟨.closeParenthesis, ⟨1, 5⟩⟩], ⟨1, 6⟩⟩ []).trans rfl
  have returned : Returns marks negation := .inr ⟨_, refused, List.mem_singleton.mpr rfl⟩
  have stopEq : marks.findIdx Mark.isEnd = 4 := by
    rw [List.findIdx_toArray]
    rfl
  obtain ⟨_, bounded, _, _, within, small⟩ := reading_is_bounded marks ended
  rw [stopEq] at bounded within
  exact ⟨ended, ⟨reached, bounded operand reached⟩, ⟨_, refused, within _ refused⟩, returned,
    small negation returned⟩

end Parser

end SignalPatch
