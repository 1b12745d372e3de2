import SignalPatch.Proofs.Language.ReadersAgree

/-!
# Positions are only carried

No reader looks at a position.  Wherever the tokens of a text are moved to, the
same statements are read, or the same fault is found, and all positions in what is
read are moved along.
-/

namespace SignalPatch

variable (move : Position → Position)

def Token.moved (token : Token) : Token :=
  ⟨token.kind, move token.position⟩

def TokenStream.moved (stream : TokenStream) : TokenStream :=
  ⟨stream.tokens.map (Token.moved move), move stream.stop⟩

def Fault.moved (fault : Fault) : Fault :=
  ⟨fault.cause, move fault.position⟩

mutual

def Expression.moved : Expression → Expression
  | .literal value position => .literal value (move position)
  | .reference name position => .reference name (move position)
  | .negate operand position => .negate operand.moved (move position)
  | .binary operator left right position =>
      .binary operator left.moved right.moved (move position)
  | .call name arguments position => .call name (Expression.movedAll arguments) (move position)

def Expression.movedAll : List Expression → List Expression
  | [] => []
  | expression :: others => expression.moved :: movedAll others

end

def Statement.moved : Statement → Statement
  | .assign target value position => .assign target (value.moved move) (move position)
  | .bare value => .bare (value.moved move)

def ParseFailure.moved (failure : ParseFailure) : ParseFailure :=
  ⟨failure.fault.moved move, failure.completed.map (Statement.moved move)⟩

def Pending.moved (pending : Pending) : Pending :=
  ⟨pending.tokens.map (Token.moved move), move pending.stop, pending.terms⟩

/-- An outcome with its positions moved, where `moveResult` moves those of a result. -/
def movedOutcome {Result : Type} (moveResult : Result → Result) :
    Except Fault Result → Except Fault Result
  | .ok result => .ok (moveResult result)
  | .error fault => .error (fault.moved move)

variable {move}

/-- What stands in front of moved tokens stood there before they were moved. -/
theorem Token.exists_of_moved_eq {tokens moved : List Token} {first second : TokenKind}
    {firstPosition secondPosition : Position}
    (movedEq : tokens.map (Token.moved move) =
      ⟨first, firstPosition⟩ :: ⟨second, secondPosition⟩ :: moved) :
    ∃ before between others,
      tokens = ⟨first, before⟩ :: ⟨second, between⟩ :: others ∧ firstPosition = move before ∧
        moved = others.map (Token.moved move) := by
  obtain ⟨⟨kind, before⟩, tail, rfl, firstEq, tailEq⟩ := List.map_eq_cons_iff.mp movedEq
  obtain ⟨⟨nextKind, between⟩, others, rfl, nextEq, rfl⟩ := List.map_eq_cons_iff.mp tailEq
  cases firstEq
  cases nextEq
  exact ⟨before, between, others, rfl, rfl, rfl⟩

theorem Expression.movedAll_eq_map (expressions : List Expression) :
    movedAll move expressions = expressions.map (moved move) := by
  induction expressions with
  | nil => rfl
  | cons expression others ih => rw [movedAll, ih, List.map_cons]

theorem movedOutcome_bind {First Second : Type} {moveFirst : First → First}
    {moveSecond : Second → Second} {next movedNext : First → Except Fault Second}
    (outcome : Except Fault First)
    (nextEq : ∀ result, movedNext (moveFirst result) =
      movedOutcome move moveSecond (next result)) :
    (movedOutcome move moveFirst outcome >>= movedNext) =
      movedOutcome move moveSecond (outcome >>= next) := by
  cases outcome with
  | error fault => rfl
  | ok result => exact nextEq result

namespace Pending

@[simp]
theorem next?_moved (pending : Pending) : (pending.moved move).next? = pending.next? := by
  simp only [next?, moved, List.head?_map, Option.map_map]
  rfl

@[simp]
theorem position_moved (pending : Pending) :
    (pending.moved move).position = move pending.position := by
  obtain ⟨tokens, stop, terms⟩ := pending
  cases tokens <;> rfl

@[simp]
theorem advance_moved (pending : Pending) :
    (pending.moved move).advance = pending.advance.moved move := by
  simp only [advance, moved, List.map_tail]

theorem refuse_moved {Result : Type} {moveResult : Result → Result} (pending : Pending)
    (cause : Cause) :
    (pending.moved move).refuse cause = movedOutcome move moveResult (pending.refuse cause) := by
  simp only [refuse, position_moved, movedOutcome, Fault.moved]

theorem unexpected_moved {Result : Type} {moveResult : Result → Result} (pending : Pending)
    (wanted : Wanted) :
    (pending.moved move).unexpected wanted =
      movedOutcome move moveResult (pending.unexpected wanted) := by
  rw [unexpected, unexpected, next?_moved]
  exact pending.refuse_moved _

theorem countTerm_moved (pending : Pending) :
    (pending.moved move).countTerm = movedOutcome move (moved move) pending.countTerm := by
  unfold countTerm
  by_cases few : pending.terms < maxTerms
  · rw [if_pos few, if_pos (show (pending.moved move).terms < maxTerms from few)]
    rfl
  · rw [if_neg few, if_neg (show ¬ (pending.moved move).terms < maxTerms from few)]
    exact pending.refuse_moved _

theorem close_moved (pending : Pending) :
    (pending.moved move).close = movedOutcome move (moved move) pending.close := by
  rw [close, close, next?_moved]
  split
  · rw [advance_moved]
    rfl
  · exact pending.unexpected_moved _

end Pending

/-- A reader that goes the same way wherever the tokens stand. -/
def Reader.Carries {Result : Type} (move : Position → Position) (moveResult : Result → Result)
    (reader : Reader Result) : Prop :=
  ∀ pending : Pending, reader (pending.moved move) =
    movedOutcome move (Prod.map moveResult (Pending.moved move)) (reader pending)

structure Nested.Carry (move : Position → Position) (nested : Nested) : Prop where
  primary : nested.primary.Carries move (Expression.moved move)
  factor : nested.factor.Carries move (Expression.moved move)
  expression : nested.expression.Carries move (Expression.moved move)
  arguments : nested.arguments.Carries move (List.map (Expression.moved move))

namespace Grammar

variable {nested : Nested}

theorem carries_call (carry : nested.Carry move) (name : String) (position : Position)
    (pending : Pending) :
    call nested name (move position) (pending.moved move) =
      movedOutcome move (Prod.map (Expression.moved move) (Pending.moved move))
        (call nested name position pending) := by
  rw [call, call, Pending.advance_moved, carry.arguments]
  apply movedOutcome_bind
  rintro ⟨arguments, rest⟩
  simp only [Prod.map]
  rw [Pending.close_moved]
  apply movedOutcome_bind
  intro closed
  simp [movedOutcome, Expression.moved, Expression.movedAll_eq_map, pure, Except.pure]

theorem carries_primary (carry : nested.Carry move) :
    (primary nested).Carries move (Expression.moved move) := by
  intro pending
  rw [primary, primary, Pending.next?_moved]
  split
  · rw [Pending.countTerm_moved]
    apply movedOutcome_bind
    intro counted
    simp [movedOutcome, Expression.moved, pure, Except.pure]
  · rw [Pending.countTerm_moved]
    apply movedOutcome_bind
    intro counted
    rw [Pending.advance_moved, Pending.next?_moved, Pending.position_moved]
    split
    · exact carries_call carry _ _ _
    · rfl
  · rw [Pending.countTerm_moved]
    apply movedOutcome_bind
    intro counted
    rw [Pending.advance_moved, Pending.next?_moved, Pending.position_moved]
    split
    · exact carries_call carry _ _ _
    · exact Pending.unexpected_moved _ _
  · rw [Pending.advance_moved, carry.expression]
    apply movedOutcome_bind
    rintro ⟨inner, rest⟩
    simp only [Prod.map]
    rw [Pending.close_moved]
    apply movedOutcome_bind
    intro closed
    rfl
  · exact pending.unexpected_moved _

theorem carries_signed (carry : nested.Carry move) :
    (signed nested).Carries move (Expression.moved move) := by
  intro pending
  rw [signed, signed, Pending.next?_moved]
  split
  · rw [Pending.countTerm_moved]
    apply movedOutcome_bind
    intro counted
    rw [Pending.advance_moved, carry.primary, Pending.position_moved]
    apply movedOutcome_bind
    rintro ⟨operand, rest⟩
    rfl
  · exact carries_primary carry pending

theorem carries_factor (carry : nested.Carry move) :
    (factor nested).Carries move (Expression.moved move) := by
  intro pending
  rw [factor, factor, carries_signed carry]
  apply movedOutcome_bind
  rintro ⟨base, rest⟩
  simp only [Prod.map, Pending.next?_moved]
  split
  · rw [Pending.countTerm_moved]
    apply movedOutcome_bind
    intro counted
    rw [Pending.advance_moved, carry.factor, Pending.position_moved]
    apply movedOutcome_bind
    rintro ⟨exponent, behind⟩
    rfl
  · rfl

/-- A chain looks at its steps only to count them. -/
theorem carries_chain {operand : Reader Expression} {operator? : TokenKind → Option BinaryOperator}
    (carries : operand.Carries move (Expression.moved move)) (steps : List Token)
    (left : Expression) (pending : Pending) :
    chain operand operator? (steps.map (Token.moved move)) (left.moved move)
        (pending.moved move) =
      movedOutcome move (Prod.map (Expression.moved move) (Pending.moved move))
        (chain operand operator? steps left pending) := by
  induction steps generalizing left pending with
  | nil => rfl
  | cons step steps ih =>
      rw [List.map_cons, chain, chain, Pending.next?_moved]
      split
      · rfl
      · rename_i operator found
        rw [Pending.countTerm_moved, Pending.position_moved]
        cases pending.countTerm with
        | error fault => rfl
        | ok counted =>
            simp only [movedOutcome, Pending.advance_moved]
            rw [carries]
            cases operand counted.advance with
            | error fault => rfl
            | ok result => exact ih (.binary operator left result.1 pending.position) result.2

theorem carries_term (carry : nested.Carry move) :
    (term nested).Carries move (Expression.moved move) := by
  intro pending
  rw [term, term, carries_factor carry]
  apply movedOutcome_bind
  rintro ⟨first, rest⟩
  exact carries_chain (carries_factor carry) rest.tokens first rest

theorem carries_expression (carry : nested.Carry move) :
    (expression nested).Carries move (Expression.moved move) := by
  intro pending
  rw [expression, expression, carries_term carry]
  apply movedOutcome_bind
  rintro ⟨first, rest⟩
  exact carries_chain (carries_term carry) rest.tokens first rest

theorem carries_moreArguments {argument : Reader Expression}
    (carries : argument.Carries move (Expression.moved move)) (steps : List Token)
    (before : Array Expression) (pending : Pending) :
    moreArguments argument (steps.map (Token.moved move)) (before.map (Expression.moved move))
        (pending.moved move) =
      movedOutcome move (Prod.map (List.map (Expression.moved move)) (Pending.moved move))
        (moreArguments argument steps before pending) := by
  induction steps generalizing before pending with
  | nil => simp [moreArguments, movedOutcome]
  | cons step steps ih =>
      rw [List.map_cons, moreArguments, moreArguments, Pending.next?_moved]
      split
      · rw [Pending.advance_moved, carries]
        cases argument pending.advance with
        | error fault => rfl
        | ok result =>
            have later := ih (before.push result.1) result.2
            rw [Array.map_push] at later
            exact later
      · simp [movedOutcome]

theorem carries_arguments (carry : nested.Carry move) :
    (arguments nested).Carries move (List.map (Expression.moved move)) := by
  intro pending
  rw [arguments, arguments, carries_expression carry]
  apply movedOutcome_bind
  rintro ⟨first, rest⟩
  have more := carries_moreArguments (carries_expression carry) rest.tokens #[first] rest
  rw [List.map_toArray] at more
  exact more

end Grammar

variable (move)

theorem Nested.carry_ofLevels (levels : Nat) : (ofLevels levels).Carry move := by
  induction levels with
  | zero =>
      exact ⟨fun pending => pending.refuse_moved _, fun pending => pending.refuse_moved _,
        fun pending => pending.refuse_moved _, fun pending => pending.refuse_moved _⟩
  | succ levels ih =>
      exact ⟨Grammar.carries_primary ih, Grammar.carries_factor ih,
        Grammar.carries_expression ih, Grammar.carries_arguments ih⟩

namespace Statement

theorem carries_readBody : Reader.Carries move (Statement.moved move) readBody := by
  have carries := Grammar.carries_expression (Nested.carry_ofLevels move maxNesting)
  rintro ⟨tokens, stop, terms⟩
  rw [readBody]
  split
  · rename_i target position equals moved movedEq
    obtain ⟨before, between, others, tokensEq, rfl, rfl⟩ := Token.exists_of_moved_eq movedEq
    subst tokensEq
    have valueEq := carries ⟨others, stop, terms⟩
    change (Grammar.expression .outermost (Pending.moved move ⟨others, stop, terms⟩) >>= _) = _
    rw [show Grammar.expression .outermost (Pending.moved move ⟨others, stop, terms⟩) = _
      from valueEq]
    apply movedOutcome_bind
    rintro ⟨value, rest⟩
    rfl
  · rename_i function position equals moved movedEq
    obtain ⟨before, between, others, tokensEq, rfl, rfl⟩ := Token.exists_of_moved_eq movedEq
    subst tokensEq
    rfl
  · rename_i noAssignment noFunction
    have bare : readBody ⟨tokens, stop, terms⟩ =
        Grammar.expression .outermost ⟨tokens, stop, terms⟩ >>= fun result =>
          pure (.bare result.1, result.2) := by
      rw [readBody]
      split
      · rename_i target position equals others tokensEq
        change tokens = _ at tokensEq
        subst tokensEq
        exact absurd rfl (noAssignment _ _ _ _)
      · rename_i function position equals others tokensEq
        change tokens = _ at tokensEq
        subst tokensEq
        exact absurd rfl (noFunction _ _ _ _)
      · rfl
    rw [bare]
    rw [show Grammar.expression .outermost (Pending.moved move ⟨tokens, stop, terms⟩) = _
      from carries ⟨tokens, stop, terms⟩]
    apply movedOutcome_bind
    rintro ⟨value, rest⟩
    rfl

theorem carries_read : Reader.Carries move (Statement.moved move) read := by
  intro pending
  have bodyEq := carries_readBody move ⟨pending.tokens, pending.stop, 0⟩
  rw [read, read]
  change (readBody (Pending.moved move ⟨pending.tokens, pending.stop, 0⟩) >>= _) = _
  rw [bodyEq]
  apply movedOutcome_bind
  rintro ⟨statement, rest⟩
  simp only [Prod.map, Pending.next?_moved]
  split
  · rfl
  · rfl
  · exact rest.unexpected_moved _

theorem readAll_moved (stop : Position) (steps tokens : List Token) (before : Array Statement) :
    readAll (move stop) (steps.map (Token.moved move)) (tokens.map (Token.moved move))
        (before.map (Statement.moved move)) =
      match readAll stop steps tokens before with
      | .ok statements => .ok (statements.map (Statement.moved move))
      | .error failure => .error (failure.moved move) := by
  induction steps generalizing tokens before with
  | nil => simp [readAll]
  | cons step steps ih =>
      have droppedEq : (tokens.map (Token.moved move)).dropWhile
          (fun token => token.kind == .separator) =
            (tokens.dropWhile (fun token => token.kind == .separator)).map (Token.moved move) :=
        List.dropWhile_map
      rw [List.map_cons, readAll, readAll, droppedEq]
      cases tokens.dropWhile (fun token => token.kind == .separator) with
      | nil => simp
      | cons first others =>
          have readEq := carries_read move ⟨first :: others, stop, 0⟩
          simp only [Pending.moved, List.map_cons] at readEq
          simp only [List.map_cons, readEq]
          cases read ⟨first :: others, stop, 0⟩ with
          | error fault => simp [movedOutcome, ParseFailure.moved]
          | ok result =>
              have later := ih result.2.tokens (before.push result.1)
              rw [Array.map_push] at later
              exact later

end Statement

/-- Statements are read alike, or refused alike, wherever the tokens of a text stand. -/
theorem TokenStream.statements_moved (stream : TokenStream) :
    (stream.moved move).statements =
      match stream.statements with
      | .ok statements => .ok (statements.map (Statement.moved move))
      | .error failure => .error (failure.moved move) := by
  have all := Statement.readAll_moved move stream.stop stream.tokens stream.tokens #[]
  rw [List.map_toArray] at all
  rw [TokenStream.statements_eq, TokenStream.statements_eq]
  exact all

end SignalPatch
