import SignalPatch.Proofs.Language.Derivation

/-!
# The grammar is unambiguous

One token of lookahead tells how a derivation goes on.  So the tokens of a phrase
have one derivation only, and end where the next token does not continue the
phrase.
-/

namespace SignalPatch

namespace Level

/-- The tokens that continue a phrase of a level in place of ending it. -/
def continues : Level → TokenKind → Bool
  | primary, kind | signed, kind => kind == .openParenthesis
  | factor, kind => kind == .openParenthesis || kind == .caret
  | term, kind =>
      kind == .openParenthesis || kind == .caret || (factor.operator? kind).isSome
  | expression, kind =>
      kind == .openParenthesis || kind == .caret || (factor.operator? kind).isSome ||
        (term.operator? kind).isSome

/-- The tokens behind a phrase of a level do not continue it. -/
def Ends (level : Level) (rest : List Token) : Prop :=
  ∀ token, rest.head? = some token → level.continues token.kind = false

def EndsChain (level : Level) (rest : List Token) : Prop :=
  ∀ token, rest.head? = some token →
    level.continues token.kind = false ∧ level.operator? token.kind = none

@[simp]
theorem ends_nil (level : Level) : level.Ends [] := by
  simp [Ends]

@[simp]
theorem ends_cons (level : Level) (token : Token) (rest : List Token) :
    level.Ends (token :: rest) ↔ level.continues token.kind = false := by
  simp [Ends]

theorem not_ends_parenthesis (level : Level) (opening : Position) (rest : List Token) :
    ¬ level.Ends (⟨.openParenthesis, opening⟩ :: rest) := by
  cases level <;> simp [continues]

theorem not_ends_caret (position : Position) (rest : List Token) :
    ¬ factor.Ends (⟨.caret, position⟩ :: rest) := by
  simp [continues]

theorem EndsChain.ends {level : Level} {rest : List Token} (ended : level.EndsChain rest) :
    level.Ends rest :=
  fun token head => (ended token head).1

theorem Ends.primary_of_factor {rest : List Token} (ended : factor.Ends rest) :
    primary.Ends rest := by
  intro token head
  have stopped := ended token head
  simp only [continues, Bool.or_eq_false_iff] at stopped ⊢
  exact stopped.1

theorem Ends.chain_of_term {rest : List Token} (ended : term.Ends rest) :
    factor.EndsChain rest := by
  intro token head
  have stopped := ended token head
  simp only [continues, operator?, Bool.or_eq_false_iff, Option.isSome_eq_false_iff,
    Option.isNone_iff_eq_none] at stopped ⊢
  exact stopped

theorem Ends.chain_of_expression {rest : List Token} (ended : expression.Ends rest) :
    term.EndsChain rest := by
  intro token head
  have stopped := ended token head
  simp only [continues, operator?, Bool.or_eq_false_iff, Option.isSome_eq_false_iff,
    Option.isNone_iff_eq_none] at stopped ⊢
  exact stopped

/-- An operator that chains operands of a level ends an operand. -/
theorem continues_of_operator? {level : Level} {symbol : TokenKind} {operator : BinaryOperator}
    (joins : level.operator? symbol = some operator) : level.continues symbol = false := by
  cases level <;> cases symbol <;> first | rfl | cases joins

end Level

/-- The first operand of a chain ends where the chain goes on. -/
theorem Chain.ends_yield {level : Level} (chain : Chain level) {rest : List Token}
    (ended : level.EndsChain rest) : level.Ends (chain.yield ++ rest) := by
  cases chain with
  | finish => exact ended.ends
  | join symbol operator joins =>
      exact (level.ends_cons _ _).mpr (Level.continues_of_operator? joins)

/-- An argument ends where a comma or the closing parenthesis is next. -/
theorem Arguments.ends_yield (arguments : Arguments) (closing : Position)
    (rest : List Token) :
    Level.expression.Ends (arguments.yield ++ ⟨.closeParenthesis, closing⟩ :: rest) := by
  cases arguments with
  | finish => exact (Level.ends_cons _ _ _).mpr rfl
  | next comma argument others => exact (Level.ends_cons _ _ _).mpr rfl

/-- The tokens of a primary start with no minus sign. -/
theorem Phrase.yield_ne_minus (operand : Phrase .primary) (rest others : List Token)
    (position : Position) : operand.yield ++ rest ≠ ⟨.minus, position⟩ :: others := by
  intro same
  cases operand with
  | number | name | parentheses => cases same
  | call head position opening first arguments closing => cases head <;> cases same

theorem CallHead.kind_injective {first second : CallHead} (same : first.kind = second.kind) :
    first = second := by
  cases first <;> cases second <;> cases same <;> rfl

mutual

/-- Tokens start with one phrase of a level at most that ends where it should. -/
theorem Phrase.eq_of_yield {level : Level} (first second : Phrase level)
    {firstRest secondRest : List Token} (firstEnds : level.Ends firstRest)
    (secondEnds : level.Ends secondRest)
    (same : first.yield ++ firstRest = second.yield ++ secondRest) :
    first = second ∧ firstRest = secondRest := by
  cases first with
  | number value position =>
      cases second with
      | number =>
          cases same
          exact ⟨rfl, rfl⟩
      | name | parentheses => cases same
      | call head => cases head <;> cases same
  | name text position =>
      cases second with
      | name =>
          cases same
          exact ⟨rfl, rfl⟩
      | number | parentheses => cases same
      | call head =>
          cases head with
          | builtin => cases same
          | name =>
              -- a name before a parenthesis is always the head of a call
              cases same
              exact absurd firstEnds (Level.not_ends_parenthesis _ _ _)
  | call head position opening argument others closing =>
      cases second with
      | number | parentheses => cases head <;> cases same
      | name =>
          cases head with
          | builtin => cases same
          | name =>
              cases same
              exact absurd secondEnds (Level.not_ends_parenthesis _ _ _)
      | call secondHead secondPosition secondOpening secondArgument secondOthers
          secondClosing =>
          simp only [Phrase.yield, List.cons_append, List.append_assoc, List.cons.injEq,
            Token.mk.injEq, true_and, List.nil_append] at same
          obtain ⟨⟨kindEq, rfl⟩, rfl, tailEq⟩ := same
          obtain rfl := CallHead.kind_injective kindEq
          obtain ⟨rfl, othersEq⟩ := Phrase.eq_of_yield argument secondArgument
            (others.ends_yield _ _) (secondOthers.ends_yield _ _) tailEq
          obtain ⟨rfl, closingEq⟩ := Arguments.eq_of_yield others secondOthers _ _ othersEq
          cases closingEq
          exact ⟨rfl, rfl⟩
  | parentheses opening inner closing =>
      cases second with
      | number | name => cases same
      | call head => cases head <;> cases same
      | parentheses secondOpening secondInner secondClosing =>
          simp only [Phrase.yield, List.cons_append, List.append_assoc, List.cons.injEq,
            Token.mk.injEq, true_and, List.nil_append] at same
          obtain ⟨rfl, tailEq⟩ := same
          obtain ⟨rfl, closingEq⟩ := Phrase.eq_of_yield inner secondInner
            ((Level.ends_cons _ _ _).mpr rfl) ((Level.ends_cons _ _ _).mpr rfl) tailEq
          cases closingEq
          exact ⟨rfl, rfl⟩
  | unsigned operand =>
      cases second with
      | unsigned secondOperand =>
          obtain ⟨rfl, restEq⟩ :=
            Phrase.eq_of_yield operand secondOperand firstEnds secondEnds same
          exact ⟨rfl, restEq⟩
      | negated => exact absurd same (operand.yield_ne_minus _ _ _)
  | negated position operand =>
      cases second with
      | unsigned secondOperand => exact absurd same.symm (secondOperand.yield_ne_minus _ _ _)
      | negated secondPosition secondOperand =>
          simp only [Phrase.yield, List.cons_append, List.cons.injEq, Token.mk.injEq,
            true_and] at same
          obtain ⟨rfl, tailEq⟩ := same
          obtain ⟨rfl, restEq⟩ :=
            Phrase.eq_of_yield operand secondOperand firstEnds secondEnds tailEq
          exact ⟨rfl, restEq⟩
  | plain base =>
      cases second with
      | plain secondBase =>
          obtain ⟨rfl, restEq⟩ := Phrase.eq_of_yield base secondBase
            firstEnds.primary_of_factor secondEnds.primary_of_factor same
          exact ⟨rfl, restEq⟩
      | power secondBase position exponent =>
          simp only [Phrase.yield, List.append_assoc, List.cons_append] at same
          obtain ⟨rfl, rfl⟩ := Phrase.eq_of_yield base secondBase
            firstEnds.primary_of_factor ((Level.ends_cons _ _ _).mpr rfl) same
          exact absurd firstEnds (Level.not_ends_caret _ _)
  | power base position exponent =>
      cases second with
      | plain secondBase =>
          simp only [Phrase.yield, List.append_assoc, List.cons_append] at same
          obtain ⟨rfl, rfl⟩ := Phrase.eq_of_yield base secondBase
            ((Level.ends_cons _ _ _).mpr rfl) secondEnds.primary_of_factor same
          exact absurd secondEnds (Level.not_ends_caret _ _)
      | power secondBase secondPosition secondExponent =>
          simp only [Phrase.yield, List.append_assoc, List.cons_append] at same
          obtain ⟨rfl, tailEq⟩ := Phrase.eq_of_yield base secondBase
            ((Level.ends_cons _ _ _).mpr rfl) ((Level.ends_cons _ _ _).mpr rfl) same
          simp only [List.cons.injEq, Token.mk.injEq, true_and] at tailEq
          obtain ⟨rfl, exponentEq⟩ := tailEq
          obtain ⟨rfl, restEq⟩ :=
            Phrase.eq_of_yield exponent secondExponent firstEnds secondEnds exponentEq
          exact ⟨rfl, restEq⟩
  | term operand others =>
      cases second with
      | term secondOperand secondOthers =>
          simp only [Phrase.yield, List.append_assoc] at same
          obtain ⟨rfl, othersEq⟩ := Phrase.eq_of_yield operand secondOperand
            (others.ends_yield firstEnds.chain_of_term)
            (secondOthers.ends_yield secondEnds.chain_of_term) same
          obtain ⟨rfl, restEq⟩ := Chain.eq_of_yield others secondOthers
            firstEnds.chain_of_term secondEnds.chain_of_term othersEq
          exact ⟨rfl, restEq⟩
  | expression operand others =>
      cases second with
      | expression secondOperand secondOthers =>
          simp only [Phrase.yield, List.append_assoc] at same
          obtain ⟨rfl, othersEq⟩ := Phrase.eq_of_yield operand secondOperand
            (others.ends_yield firstEnds.chain_of_expression)
            (secondOthers.ends_yield secondEnds.chain_of_expression) same
          obtain ⟨rfl, restEq⟩ := Chain.eq_of_yield others secondOthers
            firstEnds.chain_of_expression secondEnds.chain_of_expression othersEq
          exact ⟨rfl, restEq⟩

theorem Chain.eq_of_yield {level : Level} {firstRest secondRest : List Token} :
    ∀ (first second : Chain level), level.EndsChain firstRest → level.EndsChain secondRest →
      first.yield ++ firstRest = second.yield ++ secondRest →
      first = second ∧ firstRest = secondRest
  | .finish, .finish, _, _, same => ⟨rfl, same⟩
  | .finish, .join _ _ joins _ _ _, firstEnds, _, same => by
      have stopped := (firstEnds _ (congrArg List.head? same)).2
      rw [joins] at stopped
      cases stopped
  | .join _ _ joins _ _ _, .finish, _, secondEnds, same => by
      have stopped := (secondEnds _ (congrArg List.head? same.symm)).2
      rw [joins] at stopped
      cases stopped
  | .join symbol operator joins position operand others,
    .join secondSymbol secondOperator secondJoins secondPosition secondOperand secondOthers,
    firstEnds, secondEnds, same => by
      simp only [Chain.yield, List.cons_append, List.append_assoc, List.cons.injEq,
        Token.mk.injEq] at same
      obtain ⟨⟨rfl, rfl⟩, tailEq⟩ := same
      obtain rfl := Option.some.inj (joins.symm.trans secondJoins)
      obtain ⟨rfl, othersEq⟩ := Phrase.eq_of_yield operand secondOperand
        (others.ends_yield firstEnds) (secondOthers.ends_yield secondEnds) tailEq
      obtain ⟨rfl, restEq⟩ :=
        Chain.eq_of_yield others secondOthers firstEnds secondEnds othersEq
      exact ⟨rfl, restEq⟩

theorem Arguments.eq_of_yield (first second : Arguments) {firstRest secondRest : List Token}
    (firstClosing secondClosing : Position)
    (same : first.yield ++ ⟨.closeParenthesis, firstClosing⟩ :: firstRest =
      second.yield ++ ⟨.closeParenthesis, secondClosing⟩ :: secondRest) :
    first = second ∧ (⟨.closeParenthesis, firstClosing⟩ : Token) :: firstRest =
      ⟨.closeParenthesis, secondClosing⟩ :: secondRest := by
  cases first with
  | finish =>
      cases second with
      | finish => exact ⟨rfl, same⟩
      | next => cases same
  | next comma argument others =>
      cases second with
      | finish => cases same
      | next secondComma secondArgument secondOthers =>
          simp only [Arguments.yield, List.cons_append, List.append_assoc, List.cons.injEq,
            Token.mk.injEq, true_and] at same
          obtain ⟨rfl, tailEq⟩ := same
          obtain ⟨rfl, othersEq⟩ := Phrase.eq_of_yield argument secondArgument
            (others.ends_yield _ _) (secondOthers.ends_yield _ _) tailEq
          obtain ⟨rfl, closingEq⟩ := Arguments.eq_of_yield others secondOthers _ _ othersEq
          exact ⟨rfl, closingEq⟩

end

/-- The tokens of a phrase start with the token of a primary or with a minus. -/
theorem Phrase.exists_yield {level : Level} (phrase : Phrase level) :
    ∃ token others, phrase.yield = token :: others ∧ token.kind ≠ .separator := by
  cases phrase with
  | number | name | parentheses => exact ⟨_, _, rfl, nofun⟩
  | call head => exact ⟨_, _, rfl, by cases head <;> nofun⟩
  | unsigned operand => exact operand.exists_yield
  | negated => exact ⟨_, _, rfl, nofun⟩
  | plain base => exact base.exists_yield
  | power base position exponent =>
      obtain ⟨token, others, yieldEq, noSeparator⟩ := base.exists_yield
      exact ⟨token, _, by rw [yield, yieldEq, List.cons_append], noSeparator⟩
  | term first others =>
      obtain ⟨token, tail, yieldEq, noSeparator⟩ := first.exists_yield
      exact ⟨token, _, by rw [yield, yieldEq, List.cons_append], noSeparator⟩
  | expression first others =>
      obtain ⟨token, tail, yieldEq, noSeparator⟩ := first.exists_yield
      exact ⟨token, _, by rw [yield, yieldEq, List.cons_append], noSeparator⟩

namespace Sentence

/-- Behind a statement there is a separator or nothing. -/
def Ends (rest : List Token) : Prop :=
  ∀ token, rest.head? = some token → token.kind = .separator

theorem ends_nil : Ends [] := by
  simp [Ends]

theorem ends_separator (position : Position) (rest : List Token) :
    Ends (⟨.separator, position⟩ :: rest) := by
  simp [Ends]

theorem Ends.expression {rest : List Token} (ended : Ends rest) :
    Level.expression.Ends rest := by
  intro token head
  rw [ended token head]
  rfl

theorem exists_yield (sentence : Sentence) :
    ∃ token others, sentence.yield = token :: others ∧ token.kind ≠ .separator := by
  cases sentence with
  | assignment => exact ⟨_, _, rfl, nofun⟩
  | bare value => exact value.exists_yield

def ofName (text : String) (position : Position) : Phrase .expression :=
  .expression (.term (.plain (.unsigned (.name text position))) .finish) .finish

/-- An expression behind which a statement ends is not the start of an assignment. -/
theorem assignment_ne_bare {value : Phrase .expression} {rest others : List Token}
    (ended : Ends rest) (target : String) (position equals : Position) :
    (⟨.name target, position⟩ : Token) :: ⟨.equals, equals⟩ :: others ≠
      value.yield ++ rest := by
  intro same
  obtain ⟨_, restEq⟩ := Phrase.eq_of_yield (ofName target position) value
    ((Level.ends_cons .expression ⟨.equals, equals⟩ others).mpr rfl) ended.expression same
  subst restEq
  exact absurd (ended _ rfl) nofun

/-- Tokens start with one statement at most that ends where it should. -/
theorem eq_of_yield (first second : Sentence) {firstRest secondRest : List Token}
    (firstEnds : Ends firstRest) (secondEnds : Ends secondRest)
    (same : first.yield ++ firstRest = second.yield ++ secondRest) :
    first = second ∧ firstRest = secondRest := by
  cases first with
  | assignment target position equals value =>
      cases second with
      | assignment secondTarget secondPosition secondEquals secondValue =>
          simp only [yield, List.cons_append, List.cons.injEq, Token.mk.injEq,
            TokenKind.name.injEq, true_and] at same
          obtain ⟨⟨rfl, rfl⟩, rfl, tailEq⟩ := same
          obtain ⟨rfl, restEq⟩ := Phrase.eq_of_yield value secondValue firstEnds.expression
            secondEnds.expression tailEq
          exact ⟨rfl, restEq⟩
      | bare => exact absurd same (assignment_ne_bare secondEnds _ _ _)
  | bare value =>
      cases second with
      | assignment => exact absurd same.symm (assignment_ne_bare firstEnds _ _ _)
      | bare secondValue =>
          obtain ⟨rfl, restEq⟩ := Phrase.eq_of_yield value secondValue firstEnds.expression
            secondEnds.expression same
          exact ⟨rfl, restEq⟩

end Sentence

namespace Script

/-- The tokens of a statement are neither none nor those behind a separator. -/
private theorem ne_sentence (sentence : Sentence) (rest : List Token) :
    [] ≠ sentence.yield ++ rest ∧
      ∀ position others,
        (⟨.separator, position⟩ : Token) :: others ≠ sentence.yield ++ rest := by
  obtain ⟨token, tail, yieldEq, noSeparator⟩ := sentence.exists_yield
  rw [yieldEq]
  refine ⟨nofun, ?_⟩
  intro position others same
  cases same
  exact noSeparator rfl

/-- Tokens have one derivation at most. -/
theorem eq_of_yield (first second : Script) (same : first.yield = second.yield) :
    first = second := by
  induction first generalizing second with
  | finish =>
      cases second with
      | finish => rfl
      | separator => cases same
      | last body =>
          rw [yield, yield, ← List.append_nil body.yield] at same
          exact absurd same (ne_sentence body _).1
      | sentence body => exact absurd same (ne_sentence body _).1
  | separator position others ih =>
      cases second with
      | finish => cases same
      | separator secondPosition secondOthers =>
          simp only [yield, List.cons.injEq, Token.mk.injEq, true_and] at same
          obtain ⟨rfl, othersEq⟩ := same
          rw [ih secondOthers othersEq]
      | last body =>
          rw [yield, yield, ← List.append_nil body.yield] at same
          exact absurd same ((ne_sentence body _).2 _ _)
      | sentence body => exact absurd same ((ne_sentence body _).2 _ _)
  | last body =>
      rw [yield, ← List.append_nil body.yield] at same
      cases second with
      | finish => exact absurd same.symm (ne_sentence body _).1
      | separator => exact absurd same.symm ((ne_sentence body _).2 _ _)
      | last secondBody =>
          rw [yield, ← List.append_nil secondBody.yield] at same
          rw [(Sentence.eq_of_yield body secondBody Sentence.ends_nil Sentence.ends_nil
            same).1]
      | sentence secondBody secondSeparator secondOthers =>
          have restEq := (Sentence.eq_of_yield body secondBody Sentence.ends_nil
            (Sentence.ends_separator _ _) same).2
          cases restEq
  | sentence body separator others ih =>
      cases second with
      | finish => exact absurd same.symm (ne_sentence body _).1
      | separator => exact absurd same.symm ((ne_sentence body _).2 _ _)
      | last secondBody =>
          rw [yield, yield, ← List.append_nil secondBody.yield] at same
          have restEq := (Sentence.eq_of_yield body secondBody (Sentence.ends_separator _ _)
            Sentence.ends_nil same).2
          cases restEq
      | sentence secondBody secondSeparator secondOthers =>
          obtain ⟨rfl, restEq⟩ := Sentence.eq_of_yield body secondBody
            (Sentence.ends_separator _ _) (Sentence.ends_separator _ _) same
          simp only [List.cons.injEq, Token.mk.injEq, true_and] at restEq
          obtain ⟨rfl, othersEq⟩ := restEq
          rw [ih secondOthers othersEq]

end Script

end SignalPatch
