import SignalPatch.Proofs.Language.ReadersAgree

/-!
# What is derived is read

On the tokens of a phrase of its level a reader succeeds, provided that the next
token does not continue the phrase, that the phrase is not nested more deeply
than the levels that are left, and that its terms are not too many.  Together with
soundness and unambiguity, patches are read exactly where they are derived.
-/

namespace SignalPatch

/-- Where a phrase ends, the next token is none that continues it. -/
theorem Level.Ends.next?_ne {level : Level} {rest : List Token} (ended : level.Ends rest)
    {kind : TokenKind} (continued : level.continues kind = true) (stop : Position)
    (terms : Nat) : (⟨rest, stop, terms⟩ : Pending).next? ≠ some kind := by
  intro next
  obtain ⟨token, head, kindEq⟩ := Option.map_eq_some_iff.mp next
  have stopped := ended token head
  rw [kindEq, continued] at stopped
  cases stopped

theorem Pending.countTerm_of_lt {terms : Nat} (few : terms < maxTerms) (tokens : List Token)
    (stop : Position) :
    (⟨tokens, stop, terms⟩ : Pending).countTerm = .ok ⟨tokens, stop, terms + 1⟩ :=
  if_pos few

namespace Grammar

variable {nested : Nested}

/-- A name is a reference where no parenthesis is next. -/
theorem primary_name {text : String} {position stop : Position} {rest : List Token}
    {terms : Nat} (ended : Level.primary.Ends rest) (few : terms < maxTerms) :
    primary nested ⟨⟨.name text, position⟩ :: rest, stop, terms⟩ =
      .ok (.reference text position, ⟨rest, stop, terms + 1⟩) := by
  rw [primary, Pending.countTerm_of_lt few]
  dsimp only [Pending.next?, List.head?_cons, Option.map_some, bind, Except.bind]
  split
  · rename_i next
    exact absurd next (ended.next?_ne rfl stop (terms + 1))
  · rfl

/-- A call is read as its arguments and the closing parenthesis behind them. -/
theorem primary_call {head : CallHead} {position opening closing stop : Position}
    {tokens rest : List Token} {terms after : Nat} {arguments : List Expression}
    (few : terms < maxTerms)
    (argumentsEq : nested.arguments ⟨tokens, stop, terms + 1⟩ =
      .ok (arguments, ⟨⟨.closeParenthesis, closing⟩ :: rest, stop, after⟩)) :
    primary nested ⟨⟨head.kind, position⟩ :: ⟨.openParenthesis, opening⟩ :: tokens, stop,
        terms⟩ =
      .ok (.call head.called arguments position, ⟨rest, stop, after⟩) := by
  cases head <;>
  · simp only [primary, Pending.next?, List.head?_cons, Option.map_some, CallHead.kind,
      Pending.countTerm_of_lt few]
    change call nested _ position ⟨_ :: tokens, stop, terms + 1⟩ = _
    simp only [call, Pending.advance, List.tail_cons, argumentsEq]
    rfl

theorem primary_parentheses {opening closing stop : Position} {tokens rest : List Token}
    {terms after : Nat} {inner : Expression}
    (innerEq : nested.expression ⟨tokens, stop, terms⟩ =
      .ok (inner, ⟨⟨.closeParenthesis, closing⟩ :: rest, stop, after⟩)) :
    primary nested ⟨⟨.openParenthesis, opening⟩ :: tokens, stop, terms⟩ =
      .ok (inner, ⟨rest, stop, after⟩) := by
  simp only [primary, Pending.next?, List.head?_cons, Option.map_some, Pending.advance,
    List.tail_cons, innerEq]
  rfl

theorem signed_unsigned {operand : Phrase .primary} {rest : List Token} {stop : Position}
    {terms : Nat} :
    signed nested ⟨operand.yield ++ rest, stop, terms⟩ =
      primary nested ⟨operand.yield ++ rest, stop, terms⟩ := by
  unfold signed
  split
  · rename_i next
    obtain ⟨⟨kind, position⟩, head, rfl⟩ := Option.map_eq_some_iff.mp next
    obtain ⟨others, tokensEq⟩ := List.head?_eq_some_iff.mp head
    exact absurd tokensEq (operand.yield_ne_minus _ _ _)
  · rfl

theorem signed_negated {position stop : Position} {tokens rest : List Token}
    {terms after : Nat} {operand : Expression} (few : terms < maxTerms)
    (operandEq : nested.primary ⟨tokens, stop, terms + 1⟩ =
      .ok (operand, ⟨rest, stop, after⟩)) :
    signed nested ⟨⟨.minus, position⟩ :: tokens, stop, terms⟩ =
      .ok (.negate operand position, ⟨rest, stop, after⟩) := by
  simp only [signed, Pending.next?, List.head?_cons, Option.map_some,
    Pending.countTerm_of_lt few]
  change (nested.primary ⟨tokens, stop, terms + 1⟩ >>= _) = _
  rw [operandEq]
  rfl

/-- A base is a factor by itself where no caret is next. -/
theorem factor_plain {tokens rest : List Token} {stop : Position} {terms after : Nat}
    {base : Expression} (ended : Level.factor.Ends rest)
    (baseEq : signed nested ⟨tokens, stop, terms⟩ = .ok (base, ⟨rest, stop, after⟩)) :
    factor nested ⟨tokens, stop, terms⟩ = .ok (base, ⟨rest, stop, after⟩) := by
  rw [factor, baseEq]
  dsimp only [bind, Except.bind]
  split
  · rename_i next
    exact absurd next (ended.next?_ne rfl stop after)
  · rfl

theorem factor_power {tokens behind rest : List Token} {position stop : Position}
    {terms middle after : Nat} {base exponent : Expression} (few : middle < maxTerms)
    (baseEq : signed nested ⟨tokens, stop, terms⟩ =
      .ok (base, ⟨⟨.caret, position⟩ :: behind, stop, middle⟩))
    (exponentEq : nested.factor ⟨behind, stop, middle + 1⟩ =
      .ok (exponent, ⟨rest, stop, after⟩)) :
    factor nested ⟨tokens, stop, terms⟩ =
      .ok (.binary .power base exponent position, ⟨rest, stop, after⟩) := by
  rw [factor, baseEq]
  change ((⟨⟨.caret, position⟩ :: behind, stop, middle⟩ : Pending).countTerm >>= _) = _
  rw [Pending.countTerm_of_lt few]
  change (nested.factor ⟨behind, stop, middle + 1⟩ >>= _) = _
  rw [exponentEq]
  rfl

/-- A chain ends where the next token is no operator of its level. -/
theorem chain_finish {level : Level} {operand : Reader Expression} {rest : List Token}
    (ended : level.EndsChain rest) (steps : List Token) (left : Expression) (stop : Position)
    (terms : Nat) :
    chain operand level.operator? steps left ⟨rest, stop, terms⟩ =
      .ok (left, ⟨rest, stop, terms⟩) := by
  cases steps with
  | nil => rfl
  | cons step steps =>
      rw [chain]
      split
      · rfl
      · rename_i operator found
        obtain ⟨symbol, next, joins⟩ := Option.bind_eq_some_iff.mp found
        obtain ⟨token, head, rfl⟩ := Option.map_eq_some_iff.mp next
        rw [(ended token head).2] at joins
        cases joins

theorem chain_join {level : Level} {operand : Reader Expression} {symbol : TokenKind}
    {operator : BinaryOperator} (joins : level.operator? symbol = some operator)
    {position stop : Position} {tokens rest : List Token} {terms after : Nat}
    {left right : Expression} (few : terms < maxTerms)
    (operandEq : operand ⟨tokens, stop, terms + 1⟩ = .ok (right, ⟨rest, stop, after⟩))
    (step : Token) (steps : List Token) :
    chain operand level.operator? (step :: steps) left
        ⟨⟨symbol, position⟩ :: tokens, stop, terms⟩ =
      chain operand level.operator? steps (.binary operator left right position)
        ⟨rest, stop, after⟩ := by
  simp only [chain, Pending.next?, List.head?_cons, Option.map_some, Option.bind_some, joins,
    Pending.countTerm_of_lt few, Pending.advance, List.tail_cons, operandEq]
  rfl

end Grammar

theorem Phrase.terms_pos {level : Level} (phrase : Phrase level) : 0 < phrase.terms := by
  cases phrase with
  | number | name | call | negated | power => exact Nat.succ_pos _
  | parentheses opening inner closing => exact inner.terms_pos
  | unsigned operand => exact operand.terms_pos
  | plain base => exact base.terms_pos
  | term first others => exact Nat.add_pos_left first.terms_pos _
  | expression first others => exact Nat.add_pos_left first.terms_pos _

mutual

/-- The reader of its level reads a phrase that fits and that ends where it should. -/
theorem Phrase.read_yield {level : Level} (phrase : Phrase level) (levels : Nat)
    (shallow : phrase.nesting ≤ levels) (rest : List Token) (ended : level.Ends rest)
    (stop : Position) (terms : Nat) (few : terms + phrase.terms ≤ maxTerms) :
    level.reader (.ofLevels levels) ⟨phrase.yield ++ rest, stop, terms⟩ =
      .ok (phrase.tree, ⟨rest, stop, terms + phrase.terms⟩) := by
  cases phrase with
  | number value position =>
      have room : terms < maxTerms := few
      simp only [Level.reader, Grammar.primary, Phrase.yield, List.cons_append,
        List.nil_append, Pending.next?, List.head?_cons, Option.map_some,
        Pending.countTerm_of_lt room]
      rfl
  | name text position => exact Grammar.primary_name ended few
  | call head position opening first others closing =>
      simp only [Phrase.nesting, Phrase.terms] at shallow few
      -- arguments, as all that is nested, are read with one level less
      obtain ⟨deeper, rfl⟩ : ∃ deeper, levels = deeper + 1 := ⟨levels - 1, by omega⟩
      have firstRead := Phrase.read_yield first deeper (by omega)
        (others.yield ++ ⟨.closeParenthesis, closing⟩ :: rest)
        (others.ends_yield closing rest) stop (terms + 1) (by omega)
      have othersRead := Arguments.read_yield others deeper (by omega) closing rest stop
        (terms + 1 + first.terms) (by omega)
        (others.yield ++ ⟨.closeParenthesis, closing⟩ :: rest)
        (by simp) #[first.tree]
      have argumentsRead : (Nested.ofLevels (deeper + 1)).arguments
          ⟨first.yield ++ (others.yield ++ ⟨.closeParenthesis, closing⟩ :: rest), stop,
            terms + 1⟩ =
          .ok (first.tree :: others.trees, ⟨⟨.closeParenthesis, closing⟩ :: rest, stop,
            terms + 1 + first.terms + others.terms⟩) := by
        change Grammar.arguments (.ofLevels deeper) _ = _
        simp only [Level.reader] at firstRead
        rw [Grammar.arguments, firstRead]
        exact othersRead
      have termsEq : terms + 1 + first.terms + others.terms =
          terms + (first.terms + others.terms + 1) := by omega
      have room : terms < maxTerms := by omega
      rw [termsEq] at argumentsRead
      simp only [Phrase.yield, List.cons_append, List.append_assoc, List.nil_append]
      exact Grammar.primary_call room argumentsRead
  | parentheses opening inner closing =>
      obtain ⟨deeper, rfl⟩ : ∃ deeper, levels = deeper + 1 :=
        ⟨levels - 1, by simp only [Phrase.nesting] at shallow; omega⟩
      have innerRead := Phrase.read_yield inner deeper (Nat.le_of_succ_le_succ shallow)
        (⟨.closeParenthesis, closing⟩ :: rest) ((Level.ends_cons _ _ _).mpr rfl) stop terms few
      simp only [Phrase.yield, List.cons_append, List.append_assoc, List.nil_append]
      exact Grammar.primary_parentheses innerRead
  | unsigned operand =>
      exact Grammar.signed_unsigned.trans
        (Phrase.read_yield operand levels shallow rest ended stop terms few)
  | negated position operand =>
      simp only [Phrase.nesting, Phrase.terms] at shallow few
      obtain ⟨deeper, rfl⟩ : ∃ deeper, levels = deeper + 1 := ⟨levels - 1, by omega⟩
      have operandRead := Phrase.read_yield operand deeper (by omega) rest ended stop
        (terms + 1) (by omega)
      have termsEq : terms + 1 + operand.terms = terms + (operand.terms + 1) := by omega
      have room : terms < maxTerms := by omega
      rw [termsEq] at operandRead
      exact Grammar.signed_negated room operandRead
  | plain base =>
      exact Grammar.factor_plain ended (Phrase.read_yield base levels shallow rest
        ended.primary_of_factor stop terms few)
  | power base position exponent =>
      simp only [Phrase.nesting, Phrase.terms] at shallow few
      obtain ⟨deeper, rfl⟩ : ∃ deeper, levels = deeper + 1 := ⟨levels - 1, by omega⟩
      have baseRead := Phrase.read_yield base (deeper + 1) (by omega)
        (⟨.caret, position⟩ :: (exponent.yield ++ rest)) ((Level.ends_cons _ _ _).mpr rfl)
        stop terms (by omega)
      have exponentRead := Phrase.read_yield exponent deeper (by omega) rest ended stop
        (terms + base.terms + 1) (by omega)
      have termsEq : terms + base.terms + 1 + exponent.terms =
          terms + (base.terms + exponent.terms + 1) := by omega
      have room : terms + base.terms < maxTerms := by omega
      rw [termsEq] at exponentRead
      simp only [Phrase.yield, List.append_assoc, List.cons_append]
      exact Grammar.factor_power room baseRead exponentRead
  | term first others =>
      simp only [Phrase.nesting, Phrase.terms] at shallow few
      have firstRead := Phrase.read_yield first levels (by omega) (others.yield ++ rest)
        (others.ends_yield ended.chain_of_term) stop terms (by omega)
      have othersRead := Chain.read_yield levels rest ended.chain_of_term stop others
        (by omega) (terms + first.terms) (by omega) (others.yield ++ rest) (by simp)
        first.tree
      rw [Nat.add_assoc] at othersRead
      simp only [Phrase.yield, List.append_assoc]
      change Grammar.term (.ofLevels levels) _ = _
      change Grammar.factor (.ofLevels levels) _ = _ at firstRead
      rw [Grammar.term, firstRead]
      exact othersRead
  | expression first others =>
      simp only [Phrase.nesting, Phrase.terms] at shallow few
      have firstRead := Phrase.read_yield first levels (by omega) (others.yield ++ rest)
        (others.ends_yield ended.chain_of_expression) stop terms (by omega)
      have othersRead := Chain.read_yield levels rest ended.chain_of_expression stop others
        (by omega) (terms + first.terms) (by omega) (others.yield ++ rest) (by simp)
        first.tree
      rw [Nat.add_assoc] at othersRead
      simp only [Phrase.yield, List.append_assoc]
      change Grammar.expression (.ofLevels levels) _ = _
      change Grammar.term (.ofLevels levels) _ = _ at firstRead
      rw [Grammar.expression, firstRead]
      exact othersRead

/-- Further operands that fit are read as a chain. -/
theorem Chain.read_yield {level : Level} (levels : Nat) (rest : List Token)
    (ended : level.EndsChain rest) (stop : Position) :
    ∀ chain : Chain level, chain.nesting ≤ levels → ∀ terms : Nat,
      terms + chain.terms ≤ maxTerms → ∀ steps : List Token,
      chain.yield.length ≤ steps.length → ∀ left : Expression,
        Grammar.chain (level.reader (.ofLevels levels)) level.operator? steps left
            ⟨chain.yield ++ rest, stop, terms⟩ =
          .ok (chain.tree left, ⟨rest, stop, terms + chain.terms⟩)
  | .finish, _, terms, _, steps, _, left => Grammar.chain_finish ended steps left stop terms
  | .join symbol operator joins position operand others, shallow, terms, few, steps, enough,
    left => by
      simp only [Chain.nesting, Chain.terms] at shallow few
      cases steps with
      | nil => cases enough
      | cons step steps =>
          have operandRead := Phrase.read_yield operand levels (by omega)
            (others.yield ++ rest) (others.ends_yield ended) stop (terms + 1) (by omega)
          have shorter : others.yield.length ≤ steps.length := by
            simp only [Chain.yield, List.length_cons, List.length_append] at enough
            omega
          have othersRead := Chain.read_yield levels rest ended stop others (by omega)
            (terms + 1 + operand.terms) (by omega) steps shorter
            (.binary operator left operand.tree position)
          have termsEq : terms + 1 + operand.terms + others.terms =
              terms + (operand.terms + 1 + others.terms) := by omega
          have room : terms < maxTerms := by omega
          rw [termsEq] at othersRead
          simp only [Chain.yield, List.cons_append, List.append_assoc]
          exact (Grammar.chain_join joins room operandRead step steps).trans othersRead

theorem Arguments.read_yield (arguments : Arguments) (levels : Nat)
    (shallow : arguments.nesting ≤ levels) (closing : Position) (rest : List Token)
    (stop : Position) (terms : Nat) (few : terms + arguments.terms ≤ maxTerms)
    (steps : List Token) (enough : arguments.yield.length ≤ steps.length)
    (before : Array Expression) :
    Grammar.moreArguments (Grammar.expression (.ofLevels levels)) steps before
        ⟨arguments.yield ++ ⟨.closeParenthesis, closing⟩ :: rest, stop, terms⟩ =
      .ok (before.toList ++ arguments.trees,
        ⟨⟨.closeParenthesis, closing⟩ :: rest, stop, terms + arguments.terms⟩) := by
  cases arguments with
  | finish =>
      rw [Arguments.trees, List.append_nil]
      cases steps <;> rfl
  | next comma argument others =>
      simp only [Arguments.nesting, Arguments.terms] at shallow few
      cases steps with
      | nil => cases enough
      | cons step steps =>
          have argumentRead := Phrase.read_yield argument levels (by omega)
            (others.yield ++ ⟨.closeParenthesis, closing⟩ :: rest)
            (others.ends_yield closing rest) stop terms (by omega)
          have shorter : others.yield.length ≤ steps.length := by
            simp only [Arguments.yield, List.length_cons, List.length_append] at enough
            omega
          have othersRead := Arguments.read_yield others levels (by omega) closing rest stop
            (terms + argument.terms) (by omega) steps shorter (before.push argument.tree)
          rw [Array.toList_push, List.append_assoc, Nat.add_assoc] at othersRead
          simp only [Arguments.yield, List.cons_append, List.append_assoc]
          change Grammar.expression (.ofLevels levels) _ = _ at argumentRead
          refine Eq.trans ?_ othersRead
          simp only [Grammar.moreArguments, Pending.next?, List.head?_cons, Option.map_some,
            Pending.advance, List.tail_cons, argumentRead]

end

namespace Statement

theorem readBody_yield {sentence : Sentence} (fits : sentence.Fits) {rest : List Token}
    (ended : Sentence.Ends rest) (stop : Position) :
    readBody ⟨sentence.yield ++ rest, stop, 0⟩ =
      .ok (sentence.tree, ⟨rest, stop, sentence.value.terms⟩) := by
  have few : 0 + sentence.value.terms ≤ maxTerms := by
    rw [Nat.zero_add, ← sentence.value.terms_tree]
    exact fits.terms_le
  have valueRead := sentence.value.read_yield maxNesting fits.nesting_le rest
    ended.expression stop 0 few
  rw [Nat.zero_add] at valueRead
  change Grammar.expression .outermost _ = _ at valueRead
  cases sentence with
  | assignment target position equals value =>
      change (Grammar.expression .outermost ⟨value.yield ++ rest, stop, 0⟩ >>= _) = _
      rw [show Grammar.expression .outermost ⟨value.yield ++ rest, stop, 0⟩ = _ from valueRead]
      rfl
  | bare value =>
      change readBody ⟨value.yield ++ rest, stop, 0⟩ = _
      change Grammar.expression .outermost ⟨value.yield ++ rest, stop, 0⟩ = _ at valueRead
      unfold readBody
      split
      · rename_i tokensEq
        exact absurd tokensEq.symm (Sentence.assignment_ne_bare ended _ _ _)
      · rename_i tokensEq
        -- the name of a function is an expression only before a parenthesis
        change value.yield ++ rest = _ at tokensEq
        rw [tokensEq] at valueRead
        cases valueRead
      · rw [valueRead]
        rfl

theorem read_yield {sentence : Sentence} (fits : sentence.Fits) {rest : List Token}
    (ended : Sentence.Ends rest) (stop : Position) :
    read ⟨sentence.yield ++ rest, stop, 0⟩ =
      .ok (sentence.tree, ⟨rest, stop, sentence.value.terms⟩) := by
  rw [read, readBody_yield fits ended stop]
  cases rest with
  | nil => rfl
  | cons token others =>
      obtain ⟨kind, position⟩ := token
      have isSeparator : kind = .separator := ended _ rfl
      subst isSeparator
      rfl

theorem readAll_separator (stop : Position) (steps : List Token) (position : Position)
    (tokens : List Token) (before : Array Statement) (enough : steps ≠ []) :
    readAll stop steps (⟨.separator, position⟩ :: tokens) before =
      readAll stop steps tokens before := by
  cases steps with
  | nil => exact absurd rfl enough
  | cons step steps => rfl

theorem readAll_sentence {sentence : Sentence} (fits : sentence.Fits) {rest : List Token}
    (ended : Sentence.Ends rest) (stop : Position) (step : Token) (steps : List Token)
    (before : Array Statement) :
    readAll stop (step :: steps) (sentence.yield ++ rest) before =
      readAll stop steps rest (before.push sentence.tree) := by
  have sentenceRead := read_yield fits ended stop
  obtain ⟨⟨kind, position⟩, tail, yieldEq, noSeparator⟩ := sentence.exists_yield
  have keeps : (kind == TokenKind.separator) = false := by simpa using noSeparator
  rw [yieldEq] at sentenceRead ⊢
  simp only [readAll, List.cons_append, List.dropWhile_cons, keeps, Bool.false_eq_true,
    ↓reduceIte]
  rw [List.cons_append] at sentenceRead
  simp only [sentenceRead]

/-- The tokens of a patch whose statements fit are read as their trees. -/
theorem readAll_yield (stop : Position) (script : Script)
    (fits : ∀ sentence ∈ script.sentences, sentence.Fits) (steps : List Token)
    (enough : script.yield.length ≤ steps.length) (before : Array Statement) :
    readAll stop steps script.yield before = .ok (before.toList ++ script.trees) := by
  induction script generalizing steps before with
  | finish => cases steps <;> simp [readAll, Script.yield, Script.trees, Script.sentences]
  | separator position others ih =>
      cases steps with
      | nil => cases enough
      | cons step steps =>
          rw [Script.yield, readAll_separator _ _ _ _ _ (List.cons_ne_nil _ _)]
          exact ih fits _ (Nat.le_of_succ_le enough) before
  | last body =>
      obtain ⟨token, tail, yieldEq, _⟩ := body.exists_yield
      cases steps with
      | nil => simp [Script.yield, yieldEq] at enough
      | cons step steps =>
          rw [Script.yield, ← List.append_nil body.yield,
            readAll_sentence (fits body (List.mem_singleton_self _)) Sentence.ends_nil]
          cases steps <;> simp [readAll, Script.trees, Script.sentences]
  | sentence body separator others ih =>
      obtain ⟨token, tail, yieldEq, _⟩ := body.exists_yield
      simp only [Script.yield, yieldEq, List.length_append, List.length_cons] at enough
      cases steps with
      | nil => cases enough
      | cons step steps =>
          rw [Script.yield, readAll_sentence (fits body (List.mem_cons_self ..))
            (Sentence.ends_separator _ _)]
          simp only [List.length_cons] at enough
          have more : steps ≠ [] := by
            rintro rfl
            simp only [List.length_nil] at enough
            omega
          rw [readAll_separator _ _ _ _ _ more,
            ih (fun sentence member => fits sentence (List.mem_cons_of_mem _ member)) _
              (by omega)]
          simp [Script.trees, Script.sentences]

end Statement

/--
A stream of tokens is read just when it is derived from the grammar by a
derivation that keeps, in each statement, the limits on terms and nesting.  It
then has no other derivation, and the statements are the trees of this one.
-/
theorem TokenStream.statements_eq_ok_iff (stream : TokenStream) (statements : List Statement) :
    stream.statements = .ok statements ↔
      ∃ script : Script, script.yield = stream.tokens ∧ script.trees = statements ∧
        (∀ sentence ∈ script.sentences, sentence.Fits) ∧
        ∀ other : Script, other.yield = stream.tokens → other = script := by
  rw [TokenStream.statements_eq]
  constructor
  · intro readAll
    obtain ⟨script, yieldEq, treesEq, fits⟩ :=
      Statement.readAll_sound stream.stop stream.tokens _ _ _ (Nat.le_refl _) readAll
    refine ⟨script, yieldEq, treesEq, fits, ?_⟩
    intro other otherEq
    exact Script.eq_of_yield other script (otherEq.trans yieldEq.symm)
  · rintro ⟨script, yieldEq, treesEq, fits, _⟩
    rw [← yieldEq, ← treesEq]
    exact Statement.readAll_yield stream.stop script fits _ (Nat.le_refl _) #[]

/-- A minus binds tighter than a power, and powers group to the right. -/
example (minus first caret second later third stop : Position) :
    (TokenStream.mk [⟨.minus, minus⟩, ⟨.name "a", first⟩, ⟨.caret, caret⟩,
      ⟨.name "b", second⟩, ⟨.caret, later⟩, ⟨.name "c", third⟩] stop).statements =
      .ok [.bare (.binary .power (.negate (.reference "a" first) minus)
        (.binary .power (.reference "b" second) (.reference "c" third) later) caret)] :=
  (TokenStream.statements_eq _).trans rfl

/-- Differences group to the left. -/
example (first minus second later third stop : Position) :
    (TokenStream.mk [⟨.name "a", first⟩, ⟨.minus, minus⟩, ⟨.name "b", second⟩,
      ⟨.minus, later⟩, ⟨.name "c", third⟩] stop).statements =
      .ok [.bare (.binary .subtract (.binary .subtract (.reference "a" first)
        (.reference "b" second) minus) (.reference "c" third) later)] :=
  (TokenStream.statements_eq _).trans rfl

end SignalPatch
