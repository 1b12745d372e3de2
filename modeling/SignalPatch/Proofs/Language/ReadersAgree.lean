import SignalPatch.Proofs.Language.Cursor

/-!
# Readers with a cursor

The readers that share a parser do what the readers of lists do with the tokens that are
left, so a text has the statements that these find in it.
-/

namespace SignalPatch

namespace Parser

theorem multiplicative?_eq : multiplicative? = Level.factor.operator? := by
  funext kind
  cases kind <;> rfl

theorem additive?_eq : additive? = Level.term.operator? := by
  funext kind
  cases kind <;> rfl

/-- The reader of a level. -/
def ofLevel (inner : Inner) : Level → Parsing Expression
  | .primary => primary inner
  | .signed => signed inner
  | .factor => factor inner
  | .term => term inner
  | .expression => expression inner

variable {First Phrase : Type} {stream : TokenStream} {beyond : List Mark}
  {parser middle : Parser}

variable (stream beyond) in
/-- A reader with a cursor does at a depth what a reader of lists does. -/
def Follows (depth : Nat) (reading : Parsing Phrase) (reader : Reader Phrase) : Prop :=
  ∀ parser, parser.On stream beyond → parser.depth = depth →
    Matches stream beyond parser (reading parser) (reader (parser.pending stream))

variable (stream beyond) in
/-- What is nested one level deeper is read as a reader of lists does. -/
structure FollowsNested (depth : Nat) (inner : Inner) (deeper : Nested) : Prop where
  primary : Follows stream beyond depth (nested inner.primary) deeper.primary
  factor : Follows stream beyond depth (nested inner.factor) deeper.factor
  expression : Follows stream beyond depth (nested inner.expression) deeper.expression
  arguments : Follows stream beyond depth (nested inner.arguments) deeper.arguments

variable {depth : Nat} {inner : Inner} {deeper : Nested}

theorem follows_call (follows : FollowsNested stream beyond depth inner deeper) (name : String)
    (position : Position) (on : parser.On stream beyond) (depthEq : parser.depth = depth)
    (isNext : (parser.pending stream).next? = some .openParenthesis) :
    Matches stream beyond parser (call inner name position parser)
      (Grammar.call deeper name position (parser.pending stream)) := by
  obtain ⟨behind, pendingEq, _⟩ := on.behind_advanced isNext
  rw [call, bind_of_ok (on.expect_of_next isNext), Grammar.call, ← pendingEq]
  refine Matches.trans behind (.bind (follows.arguments _ behind.on (behind.depth_eq.trans depthEq))
    fun arguments after behindArguments => ?_)
  exact behindArguments.on.matches_close fun closed behindClosed => .ok (.refl behindClosed.on)

/-- A name or a function calls where a parenthesis is behind it. -/
theorem follows_named (follows : FollowsNested stream beyond depth inner deeper) (name : String)
    (position : Position) (on : parser.On stream beyond) (depthEq : parser.depth = depth)
    {otherwise : Parsing Expression} {otherwiseRead : Except Fault (Expression × Pending)}
    (matched : Matches stream beyond parser (otherwise parser) otherwiseRead) :
    Matches stream beyond parser
      ((get >>= fun parser : Parser =>
        if parser.nextIs .openParenthesis then call inner name position else otherwise) parser)
      (match (parser.pending stream).next? with
        | some .openParenthesis => Grammar.call deeper name position (parser.pending stream)
        | _ => otherwiseRead) := by
  rw [get_bind]
  by_cases isOpen : (parser.pending stream).next? = some .openParenthesis
  · rw [if_pos (on.nextIs_iff.mpr isOpen), isOpen]
    exact follows_call follows name position on depthEq isOpen
  · rw [if_neg (mt on.nextIs_iff.mp isOpen)]
    split
    · rename_i opens
      exact absurd opens isOpen
    · exact matched

theorem follows_primary (follows : FollowsNested stream beyond depth inner deeper) :
    Follows stream beyond depth (primary inner) (Grammar.primary deeper) := by
  intro parser on depthEq
  have positionEq := on.position_eq
  have kindEq : parser.next.kind = (parser.pending stream).next? := by rw [on.next_eq]
  rw [primary, get_bind, kindEq, Grammar.primary, positionEq]
  cases isNext : (parser.pending stream).next? with
  | none => exact on.matches_unexpected _
  | some kind =>
      cases kind with
      | number value =>
          refine on.matches_count isNext fun after counted behind _ pendingEq => ?_
          rw [← pendingEq]
          exact .ok (.refl behind.on)
      | name text =>
          refine on.matches_count isNext fun after counted behind _ pendingEq => ?_
          rw [← pendingEq]
          exact follows_named follows _ _ behind.on (behind.depth_eq.trans depthEq)
            (.ok (.refl behind.on))
      | builtin function =>
          refine on.matches_count isNext fun after counted behind _ pendingEq => ?_
          rw [← pendingEq]
          exact follows_named follows _ _ behind.on (behind.depth_eq.trans depthEq)
            (behind.on.matches_unexpected _)
      | openParenthesis =>
          obtain ⟨behind, pendingEq, _⟩ := on.behind_advanced isNext
          dsimp only
          rw [advance_bind, ← pendingEq]
          refine Matches.trans behind
            (.bind (follows.expression _ behind.on (behind.depth_eq.trans depthEq))
              fun expression after behindInner => ?_)
          exact behindInner.on.matches_close fun closed behindClosed => .ok (.refl behindClosed.on)
      | _ => exact on.matches_unexpected _

theorem follows_signed (follows : FollowsNested stream beyond depth inner deeper) :
    Follows stream beyond depth (signed inner) (Grammar.signed deeper) := by
  intro parser on depthEq
  rw [signed, get_bind, on.position_eq, Grammar.signed]
  by_cases isMinus : (parser.pending stream).next? = some .minus
  · rw [if_pos (on.nextIs_iff.mpr isMinus), isMinus]
    refine on.matches_count isMinus fun after counted behind _ pendingEq => ?_
    rw [← pendingEq]
    exact .bind (follows.primary _ behind.on (behind.depth_eq.trans depthEq))
      fun operand last behindOperand => .ok (.refl behindOperand.on)
  · rw [if_neg (mt on.nextIs_iff.mp isMinus)]
    split
    · rename_i minus
      exact absurd minus isMinus
    · exact follows_primary follows parser on depthEq

theorem follows_factor (follows : FollowsNested stream beyond depth inner deeper) :
    Follows stream beyond depth (factor inner) (Grammar.factor deeper) := by
  intro parser on depthEq
  refine .bind (follows_signed follows parser on depthEq) fun base middle behindBase => ?_
  dsimp only
  rw [get_bind, behindBase.on.position_eq]
  by_cases isCaret : (middle.pending stream).next? = some .caret
  · rw [if_pos (behindBase.on.nextIs_iff.mpr isCaret), isCaret]
    refine behindBase.on.matches_count isCaret fun after counted behind _ pendingEq => ?_
    rw [← pendingEq]
    exact .bind (follows.factor _ behind.on
        (behind.depth_eq.trans (behindBase.depth_eq.trans depthEq)))
      fun exponent last behindExponent => .ok (.refl behindExponent.on)
  · rw [if_neg (mt behindBase.on.nextIs_iff.mp isCaret)]
    split
    · rename_i caret
      exact absurd caret isCaret
    · exact .ok (.refl behindBase.on)

theorem chain_of_none {operand : Parsing Expression}
    {operator? : TokenKind → Option BinaryOperator} (turns : Nat) (left : Expression)
    (noOperator : parser.next.kind.bind operator? = none) :
    chain operand operator? turns left parser = .ok left parser := by
  cases turns with
  | zero => rfl
  | succ turns =>
      rw [chain, get_bind, noOperator]
      rfl

theorem follows_chain {operand : Parsing Expression} {reader : Reader Expression}
    {operator? : TokenKind → Option BinaryOperator}
    (follows : Follows stream beyond depth operand reader) (steps : List Token) :
    ∀ (turns : Nat) (left : Expression) (parser : Parser), parser.On stream beyond →
      parser.depth = depth → stream.tokens.length - parser.index ≤ steps.length →
      stream.tokens.length - parser.index ≤ turns →
      Matches stream beyond parser (chain operand operator? turns left parser)
        (Grammar.chain reader operator? steps left (parser.pending stream)) := by
  induction steps with
  | nil =>
      intro turns left parser on depthEq enough _
      have noOperator : parser.next.kind.bind operator? = none := by
        rw [on.next_eq, next?_pending_of_length_le (Nat.le_of_sub_eq_zero (Nat.le_zero.mp enough))]
        rfl
      rw [chain_of_none turns left noOperator]
      exact .ok (.refl on)
  | cons step steps ih =>
      intro turns left parser on depthEq enough enoughTurns
      cases joins : (parser.pending stream).next?.bind operator? with
      | none =>
          rw [chain_of_none turns left (by rw [on.next_eq, joins])]
          simp only [Grammar.chain, joins]
          exact .ok (.refl on)
      | some operator =>
          obtain ⟨kind, isNext, _⟩ := Option.bind_eq_some_iff.mp joins
          have inside := on.index_lt_of_next isNext
          rw [List.length_cons] at enough
          cases turns with
          | zero => omega
          | succ turns =>
          have kindEq : parser.next.kind.bind operator? = some operator := by rw [on.next_eq, joins]
          rw [Grammar.chain_of_some joins, chain, get_bind, on.position_eq, kindEq]
          refine on.matches_count isNext fun after counted behind indexEq pendingEq => ?_
          rw [← pendingEq]
          refine .bind (follows _ behind.on (behind.depth_eq.trans depthEq))
            fun right last behindRight => ?_
          have indexLe := behindRight.index_le
          exact ih turns _ last behindRight.on
            (behindRight.depth_eq.trans (behind.depth_eq.trans depthEq)) (by omega) (by omega)

theorem moreArguments_of_no_comma {reading : Parsing Expression} (turns : Nat)
    (before : Array Expression) (noComma : ¬ parser.nextIs .comma = true) :
    moreArguments reading turns before parser = .ok before.toList parser := by
  cases turns with
  | zero => rfl
  | succ turns =>
      rw [moreArguments, get_bind, if_neg noComma]
      rfl

theorem follows_moreArguments {reading : Parsing Expression} {reader : Reader Expression}
    (follows : Follows stream beyond depth reading reader) (steps : List Token) :
    ∀ (turns : Nat) (before : Array Expression) (parser : Parser), parser.On stream beyond →
      parser.depth = depth → stream.tokens.length - parser.index ≤ steps.length →
      stream.tokens.length - parser.index ≤ turns →
      Matches stream beyond parser (moreArguments reading turns before parser)
        (Grammar.moreArguments reader steps before (parser.pending stream)) := by
  induction steps with
  | nil =>
      intro turns before parser on depthEq enough _
      have noComma : ¬ parser.nextIs .comma = true := by
        have passed := Nat.le_of_sub_eq_zero (Nat.le_zero.mp enough)
        rw [on.nextIs_iff, next?_pending_of_length_le passed]
        exact nofun
      rw [moreArguments_of_no_comma turns before noComma]
      exact .ok (.refl on)
  | cons step steps ih =>
      intro turns before parser on depthEq enough enoughTurns
      by_cases isComma : (parser.pending stream).next? = some .comma
      · have inside := on.index_lt_of_next isComma
        obtain ⟨behind, pendingEq, indexEq⟩ := on.behind_advanced isComma
        rw [List.length_cons] at enough
        cases turns with
        | zero => omega
        | succ turns =>
        rw [Grammar.moreArguments_of_comma isComma, moreArguments, get_bind,
          if_pos (on.nextIs_iff.mpr isComma), advance_bind, ← pendingEq]
        refine Matches.trans behind (.bind (follows _ behind.on (behind.depth_eq.trans depthEq))
          fun argument last behindArgument => ?_)
        have indexLe := behindArgument.index_le
        exact ih turns _ last behindArgument.on
          (behindArgument.depth_eq.trans (behind.depth_eq.trans depthEq)) (by omega) (by omega)
      · rw [moreArguments_of_no_comma turns before (mt on.nextIs_iff.mp isComma),
          Grammar.moreArguments]
        split
        · rename_i comma
          exact absurd comma isComma
        · exact .ok (.refl on)

theorem follows_joined {operand : Parsing Expression} {reader : Reader Expression}
    {operator? : TokenKind → Option BinaryOperator}
    (follows : Follows stream beyond depth operand reader) :
    Follows stream beyond depth
      (operand >>= fun first => get >>= fun parser : Parser =>
        chain operand operator? parser.remaining first)
      (fun pending => reader pending >>= fun (first, rest) =>
        Grammar.chain reader operator? rest.tokens first rest) := by
  intro parser on depthEq
  refine .bind (follows parser on depthEq) fun first after behind => ?_
  rw [get_bind]
  exact follows_chain follows _ _ _ _ behind.on (behind.depth_eq.trans depthEq)
    (Nat.le_of_eq List.length_drop.symm) behind.on.le_remaining

theorem follows_term (follows : FollowsNested stream beyond depth inner deeper) :
    Follows stream beyond depth (term inner) (Grammar.term deeper) := by
  rw [term, multiplicative?_eq]
  exact follows_joined (follows_factor follows)

theorem follows_expression (follows : FollowsNested stream beyond depth inner deeper) :
    Follows stream beyond depth (expression inner) (Grammar.expression deeper) := by
  rw [expression, additive?_eq]
  exact follows_joined (follows_term follows)

theorem follows_arguments (follows : FollowsNested stream beyond depth inner deeper) :
    Follows stream beyond depth (arguments inner) (Grammar.arguments deeper) := by
  intro parser on depthEq
  have followsArgument := follows_expression follows
  refine .bind (followsArgument parser on depthEq) fun first after behind => ?_
  rw [get_bind]
  exact follows_moreArguments followsArgument _ _ _ _ behind.on (behind.depth_eq.trans depthEq)
    (Nat.le_of_eq List.length_drop.symm) behind.on.le_remaining

/-- What is nested is read one level deeper, and what is behind it is read as before. -/
theorem follows_nested {reading : Parsing Phrase} {reader : Reader Phrase}
    (within : depth < maxNesting) (follows : Follows stream beyond (depth + 1) reading reader) :
    Follows stream beyond depth (nested reading) reader := by
  intro parser on depthEq
  have noRefusal : ¬ maxNesting ≤ parser.depth := by omega
  have onDeeper : parser.deeper.On stream beyond := ⟨on.marks_eq, on.index_le⟩
  have matched : Matches stream beyond parser.deeper (reading parser.deeper)
      (reader (parser.pending stream)) := follows _ onDeeper (congrArg Nat.succ depthEq)
  have restored : ∀ {after : Parser}, Behind stream beyond parser.deeper after →
      Behind stream beyond parser after.shallower := by
    intro after behind
    refine ⟨⟨behind.on.marks_eq, behind.on.index_le⟩, ?_, behind.index_le⟩
    rw [shallower, behind.depth_eq]
    rfl
  rw [nested, if_neg noRefusal]
  generalize reading parser.deeper = result at matched ⊢
  generalize reader (parser.pending stream) = outcome at matched ⊢
  cases matched with
  | ok behind => exact .ok (restored behind)
  | error behind positionEq => exact .error (restored behind) positionEq

/-- The readers of what is nested agree at the depth from which so many more levels may be. -/
theorem followsNested_ofLevels (stream : TokenStream) (beyond : List Mark) (levels : Nat) :
    ∀ depth, depth + levels = maxNesting →
      FollowsNested stream beyond depth (.ofLevels levels) (.ofLevels levels) := by
  induction levels with
  | zero =>
      intro depth depthEq
      have refused : ∀ {Phrase : Type} (reading : Parsing Phrase),
          Follows stream beyond depth (nested reading)
            (fun pending => pending.refuse .nestedTooDeeply) := by
        intro Phrase reading parser on atDepth
        rw [nested, if_pos (by omega)]
        exact on.matches_refuse _
      exact ⟨refused _, refused _, refused _, refused _⟩
  | succ levels ih =>
      intro depth depthEq
      have follows := ih (depth + 1) (by omega)
      have within : depth < maxNesting := by omega
      exact ⟨follows_nested within (follows_primary follows),
        follows_nested within (follows_factor follows),
        follows_nested within (follows_expression follows),
        follows_nested within (follows_arguments follows)⟩

/-- The reader of a level agrees at the depth from which so many more levels may be nested. -/
theorem follows_ofLevel (level : Level) {levels : Nat} (depthEq : depth + levels = maxNesting) :
    Follows stream beyond depth (ofLevel (.ofLevels levels) level)
      (level.reader (.ofLevels levels)) := by
  have follows := followsNested_ofLevels stream beyond levels depth depthEq
  cases level with
  | primary => exact follows_primary follows
  | signed => exact follows_signed follows
  | factor => exact follows_factor follows
  | term => exact follows_term follows
  | expression => exact follows_expression follows

theorem follows_outermost :
    Follows stream beyond 0 (expression .outermost) (Grammar.expression .outermost) :=
  follows_expression (followsNested_ofLevels stream beyond maxNesting 0 (Nat.zero_add _))

/-- Whether what is next starts like an assignment, be it one to a function. -/
def Assigns (parser : Parser) : Prop :=
  ∃ head : CallHead, parser.next.kind = some head.kind ∧
    parser.kindAfterNext? = some (some .equals)

theorem statementBody_of_bare (noAssignment : ¬ parser.Assigns) :
    statementBody parser =
      (expression .outermost >>= fun value => pure (Statement.bare value)) parser := by
  rw [statementBody, get_bind]
  refine congrFun ?_ parser
  split
  · rename_i target firstEq secondEq
    exact absurd ⟨.name target, firstEq, secondEq⟩ noAssignment
  · rename_i function firstEq secondEq
    exact absurd ⟨.builtin function, firstEq, secondEq⟩ noAssignment
  · rfl

theorem follows_statementBody :
    Follows stream beyond 0 statementBody Statement.readBody := by
  intro parser on depthEq
  rw [Statement.readBody]
  split
  · rename_i target position equals others tokensEq
    obtain ⟨firstEq, secondEq, positionEq, behind, _, pendingEq⟩ := on.behind_two tokensEq
    rw [statementBody, get_bind]
    simp only [firstEq, secondEq, positionEq]
    rw [advance_bind, advance_bind]
    have matched := follows_outermost _ behind.on (behind.depth_eq.trans depthEq)
    rw [pendingEq] at matched
    exact .trans behind (.bind matched fun value after behindValue => .ok (.refl behindValue.on))
  · rename_i function position equals others tokensEq
    obtain ⟨firstEq, secondEq, positionEq, _⟩ := on.behind_two tokensEq
    have refused : Matches stream beyond parser
        ((refuse (.assignedFunction function) : Parsing Statement) parser) _ :=
      on.matches_refuse _
    rw [Pending.refuse, Pending.position, tokensEq] at refused
    rw [statementBody, get_bind]
    simp only [firstEq, secondEq]
    exact refused
  · rename_i noName noBuiltin
    have noAssignment : ¬ parser.Assigns := by
      rintro ⟨head, firstEq, secondEq⟩
      obtain ⟨_, _, _, tokensEq⟩ := on.exists_tokens firstEq secondEq
      cases head with
      | name => exact noName _ _ _ _ tokensEq
      | builtin => exact noBuiltin _ _ _ _ tokensEq
    rw [statementBody_of_bare noAssignment]
    exact .bind (follows_outermost parser on depthEq)
      fun value after behind => .ok (.refl behind.on)

theorem follows_statement : Follows stream beyond 0 statement Statement.read := by
  intro parser on depthEq
  have onUncounted : parser.uncounted.On stream beyond := ⟨on.marks_eq, on.index_le⟩
  have bodyMatched := follows_statementBody parser.uncounted onUncounted depthEq
  change Matches stream beyond parser ((statementBody >>= fun statement => _) parser.uncounted)
    (Statement.readBody (parser.uncounted.pending stream) >>= _)
  refine Matches.trans ⟨onUncounted, rfl, Nat.le_refl _⟩
    (.bind bodyMatched fun statement after behind => ?_)
  rw [get_bind, behind.on.next_eq]
  dsimp only
  cases isNext : (after.pending stream).next? with
  | none => exact .ok (.refl behind.on)
  | some kind =>
      cases kind with
      | separator => exact .ok (.refl behind.on)
      | _ => exact behind.on.matches_unexpected _

/-- What is left of a parser behind all statements, or behind the fault of one. -/
inductive MatchesAll (stream : TokenStream) (beyond : List Mark) (before : Parser) :
    EStateM.Result ParseFailure Parser (List Statement) → Except ParseFailure (List Statement) →
      Prop where
  | ok {statements : List Statement} {after : Parser} (behind : Behind stream beyond before after) :
      MatchesAll stream beyond before (.ok statements after) (.ok statements)
  | error {failure : ParseFailure} {after : Parser} (behind : Behind stream beyond before after)
      (position_eq : failure.fault.position = after.next.position) :
      MatchesAll stream beyond before (.error failure after) (.error failure)

theorem MatchesAll.trans {result : EStateM.Result ParseFailure Parser (List Statement)}
    {outcome : Except ParseFailure (List Statement)} (behind : Behind stream beyond before middle)
    (matched : MatchesAll stream beyond middle result outcome) :
    MatchesAll stream beyond before result outcome := by
  cases matched with
  | ok later => exact .ok (behind.trans later)
  | error later positionEq => exact .error (behind.trans later) positionEq

/-- The loop over statements, where nothing but separators is left. -/
theorem statements_of_isAtEnd (turns : Nat) (completed : Array Statement)
    (atEnd : (skipSeparators parser.remaining parser).isAtEnd = true) :
    ∃ after, (after = parser ∨ after = skipSeparators parser.remaining parser) ∧
      statements turns completed parser = .ok completed.toList after := by
  cases turns with
  | zero => exact ⟨parser, .inl rfl, rfl⟩
  | succ turns => exact ⟨_, .inr rfl, if_pos atEnd⟩

theorem statements_of_not_isAtEnd {turns : Nat} {completed : Array Statement}
    (notAtEnd : ¬ (skipSeparators parser.remaining parser).isAtEnd = true) :
    statements (turns + 1) completed parser =
      match statement (skipSeparators parser.remaining parser) with
      | .ok statement behind => statements turns (completed.push statement) behind
      | .error fault behind => .error ⟨fault, completed.toList⟩ behind :=
  if_neg notAtEnd

theorem follows_statements (steps : List Token) :
    ∀ (turns : Nat) (completed : Array Statement) (parser : Parser), parser.On stream beyond →
      parser.depth = 0 → stream.tokens.length - parser.index ≤ steps.length →
      stream.tokens.length - parser.index ≤ turns →
      MatchesAll stream beyond parser (statements turns completed parser)
        (Statement.readAll stream.stop steps (parser.pending stream).tokens completed) := by
  have ends : ∀ (turns : Nat) (completed : Array Statement) (parser : Parser),
      parser.On stream beyond →
      (parser.pending stream).tokens.dropWhile (fun token => token.kind == .separator) = [] →
      MatchesAll stream beyond parser (statements turns completed parser)
        (.ok completed.toList) := by
    intro turns completed parser on onlySeparators
    obtain ⟨behind, tokensEq⟩ := On.behind_skipSeparators parser.remaining parser on on.le_remaining
    have atEnd : (skipSeparators parser.remaining parser).isAtEnd = true := by
      rw [behind.on.isAtEnd_eq, Pending.next?, tokensEq, onlySeparators]
      rfl
    obtain ⟨after, rfl | rfl, statementsEq⟩ := statements_of_isAtEnd turns completed atEnd
    · rw [statementsEq]
      exact .ok (.refl on)
    · rw [statementsEq]
      exact .ok behind
  induction steps with
  | nil =>
      intro turns completed parser on depthEq enough _
      refine ends turns completed parser on ?_
      rw [pending, List.drop_eq_nil_of_le (Nat.le_of_sub_eq_zero (Nat.le_zero.mp enough))]
      rfl
  | cons step steps ih =>
      intro turns completed parser on depthEq enough enoughTurns
      by_cases onlySeparators :
          (parser.pending stream).tokens.dropWhile (fun token => token.kind == .separator) = []
      · rw [Statement.readAll_of_separators onlySeparators]
        exact ends turns completed parser on onlySeparators
      obtain ⟨behind, tokensEq⟩ :=
        On.behind_skipSeparators parser.remaining parser on on.le_remaining
      rw [← tokensEq] at onlySeparators
      have left : 0 < stream.tokens.length - (skipSeparators parser.remaining parser).index := by
        rw [← List.length_drop]
        exact List.length_pos_iff.mpr onlySeparators
      have notAtEnd : ¬ (skipSeparators parser.remaining parser).isAtEnd = true := by
        rw [behind.on.isAtEnd_eq, Option.isNone_iff_eq_none, Pending.next?,
          Option.map_eq_none_iff, List.head?_eq_none_iff]
        exact onlySeparators
      have indexLe := behind.index_le
      rw [List.length_cons] at enough
      cases turns with
      | zero => omega
      | succ turns =>
      have readAllEq : Statement.readAll stream.stop (step :: steps)
          (parser.pending stream).tokens completed = _ :=
        Statement.readAll_of_start tokensEq onlySeparators rfl
      rw [readAllEq, statements_of_not_isAtEnd notAtEnd]
      generalize skipSeparators parser.remaining parser = start at behind left indexLe ⊢
      have matched := follows_statement start behind.on (behind.depth_eq.trans depthEq)
      cases readEq : Statement.read (start.pending stream) with
      | error fault =>
          rw [readEq] at matched
          cases resultEq : statement start with
          | ok => rw [resultEq] at matched; cases matched
          | error =>
              rw [resultEq] at matched
              cases matched with
              | error behindFault positionEq => exact .error (behind.trans behindFault) positionEq
      | ok result =>
          obtain ⟨body, rest⟩ := result
          rw [readEq] at matched
          cases resultEq : statement start with
          | error => rw [resultEq] at matched; cases matched
          | ok body after =>
              rw [resultEq] at matched
              cases matched with
              | ok behindBody =>
                  obtain ⟨token, others, startEq, suffix⟩ :=
                    Pending.exists_suffix_of_read readEq
                  have startLength : (start.pending stream).tokens.length =
                      stream.tokens.length - start.index := List.length_drop
                  have afterLength : (after.pending stream).tokens.length =
                      stream.tokens.length - after.index := List.length_drop
                  have shorter := suffix.length_le
                  rw [startEq, List.length_cons] at startLength
                  exact (ih _ _ _ behindBody.on
                    (behindBody.depth_eq.trans (behind.depth_eq.trans depthEq)) (by omega)
                    (by omega)).trans (behind.trans behindBody)

theorem matches_statements (stream : TokenStream) (beyond : List Mark) :
    MatchesAll stream beyond (ofMarks (stream.marks ++ beyond).toArray)
      (statements (stream.marks ++ beyond).toArray.size #[]
        (ofMarks (stream.marks ++ beyond).toArray))
      (Statement.readAll stream.stop stream.tokens stream.tokens #[]) := by
  have on : (ofMarks (stream.marks ++ beyond).toArray).On stream beyond := ⟨rfl, Nat.zero_le _⟩
  exact follows_statements stream.tokens _ _ _ on rfl (Nat.sub_le _ _) on.le_remaining

/-- What is behind the end of a text is not read. -/
theorem parse_eq (stream : TokenStream) (beyond : List Mark) :
    parse (stream.marks ++ beyond).toArray =
      Statement.readAll stream.stop stream.tokens stream.tokens #[] := by
  have matched := matches_statements stream beyond
  rw [parse]
  generalize statements _ #[] _ = result at matched ⊢
  generalize Statement.readAll stream.stop stream.tokens stream.tokens #[] = outcome at matched ⊢
  cases matched <;> rfl

end Parser

/-- The statements of a text are those that the readers of lists find. -/
theorem TokenStream.statements_eq (stream : TokenStream) :
    stream.statements = Statement.readAll stream.stop stream.tokens stream.tokens #[] := by
  have parsed := Parser.parse_eq stream []
  rwa [List.append_nil] at parsed

end SignalPatch
