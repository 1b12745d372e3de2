import SignalPatch.Proofs.Language.NextToken
import SignalPatch.Proofs.Language.Readers

/-!
# What is read is derived

Whenever a reader of a level succeeds, the tokens that it has consumed are those
of a phrase of the level, of which it returns the syntax tree.  It has counted
the terms of the phrase, and the phrase is nested no deeper than the levels that
the reader has left.  What is next does not continue the phrase.
-/

namespace SignalPatch

theorem exists_of_bind_eq_ok {Failure First Second : Type} {first : Except Failure First}
    {next : First → Except Failure Second} {result : Second}
    (bound : (first >>= next) = .ok result) :
    ∃ middle, first = .ok middle ∧ next middle = .ok result := by
  cases first with
  | error failure => cases bound
  | ok middle => exact ⟨middle, rfl, bound⟩

namespace Pending

/-- Tokens with so many terms are consumed, and the terms are still few enough. -/
structure Consumes (pending : Pending) (tokens : List Token) (terms : Nat)
    (rest : Pending) : Prop where
  tokens_eq : pending.tokens = tokens ++ rest.tokens
  stop_eq : rest.stop = pending.stop
  terms_eq : rest.terms = pending.terms + terms
  terms_le : pending.terms ≤ maxTerms → rest.terms ≤ maxTerms

theorem Consumes.refl (pending : Pending) : pending.Consumes [] 0 pending :=
  ⟨rfl, rfl, rfl, id⟩

theorem Consumes.append {pending middle rest : Pending} {first second : List Token}
    {firstTerms secondTerms : Nat} (left : pending.Consumes first firstTerms middle)
    (right : middle.Consumes second secondTerms rest) :
    pending.Consumes (first ++ second) (firstTerms + secondTerms) rest where
  tokens_eq := by rw [left.tokens_eq, right.tokens_eq, List.append_assoc]
  stop_eq := right.stop_eq.trans left.stop_eq
  terms_eq := by rw [right.terms_eq, left.terms_eq, Nat.add_assoc]
  terms_le := fun few => right.terms_le (left.terms_le few)

theorem consumes_advance {pending : Pending} {kind : TokenKind}
    (next : pending.next? = some kind) :
    pending.Consumes [⟨kind, pending.position⟩] 0 pending.advance := by
  obtain ⟨tokens, stop, terms⟩ := pending
  cases tokens with
  | nil => cases next
  | cons token others =>
      cases next
      exact ⟨rfl, rfl, rfl, id⟩

/-- Counting a term leaves the tokens where they are. -/
theorem countTerm_eq_ok {pending counted : Pending} (count : pending.countTerm = .ok counted) :
    pending.terms < maxTerms ∧
      counted = ⟨pending.tokens, pending.stop, pending.terms + 1⟩ := by
  unfold countTerm at count
  split at count
  · cases count
    exact ⟨by assumption, rfl⟩
  · cases count

theorem consumes_count {pending counted : Pending} {kind : TokenKind}
    (next : pending.next? = some kind) (count : pending.countTerm = .ok counted) :
    pending.Consumes [⟨kind, pending.position⟩] 1 counted.advance := by
  obtain ⟨few, rfl⟩ := countTerm_eq_ok count
  obtain ⟨tokensEq, _, _, _⟩ := consumes_advance next
  exact ⟨tokensEq, rfl, rfl, fun _ => few⟩

theorem consumes_close {pending rest : Pending} (closed : pending.close = .ok rest) :
    pending.Consumes [⟨.closeParenthesis, pending.position⟩] 0 rest := by
  unfold close at closed
  split at closed
  · rename_i next
    cases closed
    exact consumes_advance next
  · cases closed

end Pending

/-- A reader that returns the trees of phrases of a level that are nested less deeply. -/
def Level.Sound (level : Level) (levels : Nat) (reader : Reader Expression) : Prop :=
  ∀ pending tree rest, reader pending = .ok (tree, rest) →
    ∃ phrase : Phrase level, phrase.tree = tree ∧ phrase.nesting < levels ∧
      pending.Consumes phrase.yield phrase.terms rest ∧
      level.StopsAt phrase.endsInName rest.next?

def Arguments.Sound (levels : Nat) (reader : Reader (List Expression)) : Prop :=
  ∀ pending trees rest, reader pending = .ok (trees, rest) →
    ∃ (first : Phrase .expression) (others : Arguments),
      first.tree :: others.trees = trees ∧ first.nesting < levels ∧ others.nesting < levels ∧
        pending.Consumes (first.yield ++ others.yield) (first.terms + others.terms) rest ∧
        Level.expression.StopsAt (others.endsInName first.endsInName) rest.next? ∧
        rest.next? ≠ some .comma

structure Nested.Sound (levels : Nat) (nested : Nested) : Prop where
  primary : Level.primary.Sound levels nested.primary
  factor : Level.factor.Sound levels nested.factor
  expression : Level.expression.Sound levels nested.expression
  arguments : Arguments.Sound levels nested.arguments

namespace Grammar

variable {levels : Nat} {nested : Nested}

theorem call_sound (sound : nested.Sound levels) (head : CallHead)
    {pending counted rest : Pending} {tree : Expression}
    (next : pending.next? = some head.kind) (count : pending.countTerm = .ok counted)
    (parenthesis : counted.advance.next? = some .openParenthesis)
    (read : call nested head.called pending.position counted.advance = .ok (tree, rest)) :
    ∃ phrase : Phrase .primary, phrase.tree = tree ∧ phrase.nesting < levels + 1 ∧
      pending.Consumes phrase.yield phrase.terms rest ∧
      Level.primary.StopsAt phrase.endsInName rest.next? := by
  obtain ⟨⟨arguments, behind⟩, argumentsRead, closeRead⟩ := exists_of_bind_eq_ok read
  obtain ⟨closed, closeEq, returned⟩ := exists_of_bind_eq_ok closeRead
  cases returned
  obtain ⟨first, others, rfl, firstShallow, othersShallow, consumed, _⟩ :=
    sound.arguments _ _ _ argumentsRead
  refine ⟨.call head pending.position counted.advance.position first others behind.position,
    rfl, ?_, ?_, Level.stopsAt_primary nofun⟩
  · simp only [Phrase.nesting]
    omega
  · have whole := ((Pending.consumes_count next count).append
      (Pending.consumes_advance parenthesis)).append
        (consumed.append (Pending.consumes_close closeEq))
    rw [Nat.add_comm] at whole
    exact whole

theorem primary_sound (sound : nested.Sound levels) :
    Level.primary.Sound (levels + 1) (primary nested) := by
  intro pending tree rest read
  simp only [primary] at read
  split at read
  · rename_i value next
    obtain ⟨counted, count, returned⟩ := exists_of_bind_eq_ok read
    cases returned
    exact ⟨.number value pending.position, rfl, Nat.succ_pos _,
      Pending.consumes_count next count, Level.stopsAt_primary nofun⟩
  · rename_i text next
    obtain ⟨counted, count, read⟩ := exists_of_bind_eq_ok read
    split at read
    · exact call_sound sound (.name text) next count (by assumption) read
    · rename_i noParenthesis
      cases read
      exact ⟨.name text pending.position, rfl, Nat.succ_pos _,
        Pending.consumes_count next count, Level.stopsAt_primary (fun _ => noParenthesis)⟩
  · rename_i function next
    obtain ⟨counted, count, read⟩ := exists_of_bind_eq_ok read
    split at read
    · exact call_sound sound (.builtin function) next count (by assumption) read
    · cases read
  · rename_i next
    obtain ⟨⟨inner, behind⟩, innerRead, closeRead⟩ := exists_of_bind_eq_ok read
    obtain ⟨closed, closeEq, returned⟩ := exists_of_bind_eq_ok closeRead
    cases returned
    obtain ⟨phrase, rfl, shallow, consumed, _⟩ := sound.expression _ _ _ innerRead
    refine ⟨.parentheses pending.position phrase behind.position, rfl,
      Nat.succ_lt_succ shallow, ?_, Level.stopsAt_primary nofun⟩
    have whole := ((Pending.consumes_advance next).append consumed).append
      (Pending.consumes_close closeEq)
    rw [Nat.zero_add, Nat.add_zero] at whole
    exact whole
  · cases read

theorem signed_sound (sound : nested.Sound levels) :
    Level.signed.Sound (levels + 1) (signed nested) := by
  intro pending tree rest read
  simp only [signed] at read
  split at read
  · rename_i next
    obtain ⟨counted, count, read⟩ := exists_of_bind_eq_ok read
    obtain ⟨⟨operand, behind⟩, operandRead, returned⟩ := exists_of_bind_eq_ok read
    cases returned
    obtain ⟨phrase, rfl, shallow, consumed, stops⟩ := sound.primary _ _ _ operandRead
    refine ⟨.negated pending.position phrase, rfl, Nat.succ_lt_succ shallow, ?_, stops⟩
    have whole := (Pending.consumes_count next count).append consumed
    rw [Nat.add_comm] at whole
    exact whole
  · obtain ⟨phrase, treeEq, shallow, consumed, stops⟩ := primary_sound sound _ _ _ read
    exact ⟨.unsigned phrase, treeEq, shallow, consumed, stops⟩

theorem factor_sound (sound : nested.Sound levels) :
    Level.factor.Sound (levels + 1) (factor nested) := by
  intro pending tree rest read
  obtain ⟨⟨base, behind⟩, baseRead, read⟩ := exists_of_bind_eq_ok read
  obtain ⟨basePhrase, rfl, baseShallow, baseConsumed, baseStops⟩ :=
    signed_sound sound _ _ _ baseRead
  dsimp only at read
  split at read
  · rename_i next
    obtain ⟨counted, count, read⟩ := exists_of_bind_eq_ok read
    obtain ⟨⟨exponent, last⟩, exponentRead, returned⟩ := exists_of_bind_eq_ok read
    cases returned
    obtain ⟨phrase, rfl, shallow, consumed, stops⟩ := sound.factor _ _ _ exponentRead
    refine ⟨.power basePhrase behind.position phrase, rfl, ?_, ?_, stops⟩
    · simp only [Phrase.nesting]
      omega
    · have whole := baseConsumed.append ((Pending.consumes_count next count).append consumed)
      rw [Nat.add_comm 1, ← Nat.add_assoc] at whole
      exact whole
  · rename_i noCaret
    cases read
    exact ⟨.plain basePhrase, rfl, baseShallow, baseConsumed, baseStops.factor noCaret⟩

theorem chain_sound {level : Level} {operand : Reader Expression}
    (sound : level.Sound (levels + 1) operand) (steps : List Token) :
    ∀ left pending named tree rest, pending.tokens.length ≤ steps.length →
      level.StopsAt named pending.next? →
      chain operand level.operator? steps left pending = .ok (tree, rest) →
      ∃ others : Chain level, others.tree left = tree ∧ others.nesting < levels + 1 ∧
        pending.Consumes others.yield others.terms rest ∧
        level.StopsAt (others.endsInName named) rest.next? ∧
        rest.next?.bind level.operator? = none := by
  induction steps with
  | nil =>
      intro left pending named tree rest enough stops read
      cases read
      have noTokens := List.eq_nil_of_length_eq_zero (Nat.le_zero.mp enough)
      exact ⟨.finish, rfl, Nat.succ_pos _, .refl pending, stops, by simp [Pending.next?, noTokens]⟩
  | cons step steps ih =>
      intro left pending named tree rest enough stops read
      simp only [chain] at read
      split at read
      · rename_i noOperator
        cases read
        exact ⟨.finish, rfl, Nat.succ_pos _, .refl pending, stops, noOperator⟩
      · rename_i operator found
        obtain ⟨symbol, next, joins⟩ := Option.bind_eq_some_iff.mp found
        split at read
        · cases read
        · rename_i counted count
          split at read
          · cases read
          · rename_i right behind operandRead
            obtain ⟨phrase, rfl, shallow, consumed, operandStops⟩ := sound _ _ _ operandRead
            have operandConsumed := (Pending.consumes_count next count).append consumed
            have fewer : behind.tokens.length ≤ steps.length := by
              have lengths := congrArg List.length operandConsumed.tokens_eq
              simp only [List.length_append, List.length_cons] at lengths enough
              omega
            obtain ⟨others, rfl, othersShallow, othersConsumed, othersStop⟩ :=
              ih _ _ _ _ _ fewer operandStops read
            refine ⟨.join symbol operator joins pending.position phrase others, rfl, ?_, ?_,
              othersStop⟩
            · simp only [Chain.nesting]
              omega
            · have whole := operandConsumed.append othersConsumed
              rw [Nat.add_comm 1] at whole
              exact whole

theorem term_sound (sound : nested.Sound levels) :
    Level.term.Sound (levels + 1) (term nested) := by
  intro pending tree rest read
  obtain ⟨⟨first, behind⟩, firstRead, othersRead⟩ := exists_of_bind_eq_ok read
  obtain ⟨phrase, rfl, shallow, consumed, firstStops⟩ := factor_sound sound _ _ _ firstRead
  obtain ⟨others, rfl, othersShallow, othersConsumed, stops, noOperator⟩ :=
    chain_sound (factor_sound sound) _ _ _ _ _ _ (Nat.le_refl _) firstStops othersRead
  exact ⟨.term phrase others, rfl, Nat.max_lt.mpr ⟨shallow, othersShallow⟩,
    consumed.append othersConsumed, stops.term noOperator⟩

theorem expression_sound (sound : nested.Sound levels) :
    Level.expression.Sound (levels + 1) (expression nested) := by
  intro pending tree rest read
  obtain ⟨⟨first, behind⟩, firstRead, othersRead⟩ := exists_of_bind_eq_ok read
  obtain ⟨phrase, rfl, shallow, consumed, firstStops⟩ := term_sound sound _ _ _ firstRead
  obtain ⟨others, rfl, othersShallow, othersConsumed, stops, noOperator⟩ :=
    chain_sound (term_sound sound) _ _ _ _ _ _ (Nat.le_refl _) firstStops othersRead
  exact ⟨.expression phrase others, rfl, Nat.max_lt.mpr ⟨shallow, othersShallow⟩,
    consumed.append othersConsumed, stops.expression noOperator⟩

theorem moreArguments_sound {argument : Reader Expression}
    (sound : Level.expression.Sound (levels + 1) argument) (steps : List Token) :
    ∀ before pending named trees rest, pending.tokens.length ≤ steps.length →
      Level.expression.StopsAt named pending.next? →
      moreArguments argument steps before pending = .ok (trees, rest) →
      ∃ others : Arguments, before.toList ++ others.trees = trees ∧
        others.nesting < levels + 1 ∧ pending.Consumes others.yield others.terms rest ∧
        Level.expression.StopsAt (others.endsInName named) rest.next? ∧
        rest.next? ≠ some .comma := by
  induction steps with
  | nil =>
      intro before pending named trees rest enough stops read
      cases read
      have noTokens := List.eq_nil_of_length_eq_zero (Nat.le_zero.mp enough)
      exact ⟨.finish, List.append_nil _, Nat.succ_pos _, .refl pending, stops,
        by simp [Pending.next?, noTokens]⟩
  | cons step steps ih =>
      intro before pending named trees rest enough stops read
      simp only [moreArguments] at read
      split at read
      · rename_i next
        split at read
        · cases read
        · rename_i tree behind argumentRead
          obtain ⟨phrase, rfl, shallow, consumed, argumentStops⟩ := sound _ _ _ argumentRead
          have argumentConsumed := (Pending.consumes_advance next).append consumed
          have fewer : behind.tokens.length ≤ steps.length := by
            have lengths := congrArg List.length argumentConsumed.tokens_eq
            simp only [List.length_append, List.length_cons] at lengths enough
            omega
          obtain ⟨others, treesEq, othersShallow, othersConsumed, othersStop⟩ :=
            ih _ _ _ _ _ fewer argumentStops read
          refine ⟨.next pending.position phrase others, ?_, ?_, ?_, othersStop⟩
          · simpa [Arguments.trees] using treesEq
          · simp only [Arguments.nesting]
            omega
          · have whole := argumentConsumed.append othersConsumed
            rw [Nat.zero_add] at whole
            exact whole
      · rename_i noComma
        cases read
        exact ⟨.finish, List.append_nil _, Nat.succ_pos _, .refl pending, stops, noComma⟩

theorem arguments_sound (sound : nested.Sound levels) :
    Arguments.Sound (levels + 1) (arguments nested) := by
  intro pending trees rest read
  obtain ⟨⟨tree, behind⟩, firstRead, othersRead⟩ := exists_of_bind_eq_ok read
  obtain ⟨first, rfl, shallow, consumed, firstStops⟩ := expression_sound sound _ _ _ firstRead
  obtain ⟨others, treesEq, othersShallow, othersConsumed, stop⟩ :=
    moreArguments_sound (expression_sound sound) _ _ _ _ _ _ (Nat.le_refl _) firstStops othersRead
  exact ⟨first, others, treesEq, shallow, othersShallow, consumed.append othersConsumed, stop⟩

end Grammar

/-- The readers of nested phrases are sound for the levels that they have left. -/
theorem Nested.sound_ofLevels (levels : Nat) : (ofLevels levels).Sound levels := by
  induction levels with
  | zero => exact ⟨nofun, nofun, nofun, nofun⟩
  | succ levels ih =>
      exact ⟨Grammar.primary_sound ih, Grammar.factor_sound ih, Grammar.expression_sound ih,
        Grammar.arguments_sound ih⟩

/-- A derivation of a statement keeps the limits on terms and nesting. -/
structure Sentence.Fits (sentence : Sentence) : Prop where
  terms_le : sentence.value.tree.terms ≤ maxTerms
  nesting_le : sentence.value.nesting ≤ maxNesting

namespace Statement

theorem readBody_sound {pending rest : Pending} {statement : Statement}
    (read : readBody pending = .ok (statement, rest)) :
    ∃ sentence : Sentence, sentence.tree = statement ∧
      sentence.value.nesting ≤ maxNesting ∧
      pending.Consumes sentence.yield sentence.value.terms rest ∧
      Level.expression.StopsAt sentence.value.endsInName rest.next? := by
  have sound := Grammar.expression_sound (Nested.sound_ofLevels maxNesting)
  obtain ⟨tokens, stop, terms⟩ := pending
  unfold readBody at read
  split at read
  · rename_i target position equals others tokensEq
    obtain ⟨⟨tree, behind⟩, valueRead, returned⟩ := exists_of_bind_eq_ok read
    cases returned
    obtain ⟨value, rfl, shallow, consumed, stops⟩ := sound _ _ _ valueRead
    refine ⟨.assignment target position equals value, rfl, Nat.le_of_lt_succ shallow, ?_⟩
    have valueEq : others = value.yield ++ rest.tokens := consumed.tokens_eq
    refine ⟨⟨?_, consumed.stop_eq, consumed.terms_eq, consumed.terms_le⟩, stops⟩
    change tokens = _ at tokensEq
    rw [tokensEq, valueEq]
    rfl
  · cases read
  · obtain ⟨⟨tree, behind⟩, valueRead, returned⟩ := exists_of_bind_eq_ok read
    cases returned
    obtain ⟨value, rfl, shallow, consumed, stops⟩ := sound _ _ _ valueRead
    exact ⟨.bare value, rfl, Nat.le_of_lt_succ shallow, consumed, stops⟩

theorem read_sound {pending rest : Pending} {statement : Statement}
    (readStatement : read pending = .ok (statement, rest)) :
    ∃ sentence : Sentence, sentence.tree = statement ∧ sentence.Fits ∧
      pending.tokens = sentence.yield ++ rest.tokens ∧ Sentence.Ends rest.tokens := by
  obtain ⟨⟨body, behind⟩, bodyRead, checked⟩ := exists_of_bind_eq_ok readStatement
  obtain ⟨sentence, rfl, shallow, consumed, _⟩ := readBody_sound bodyRead
  have few := consumed.terms_le (Nat.zero_le _)
  rw [consumed.terms_eq, Nat.zero_add, ← sentence.value.terms_tree] at few
  dsimp only at checked
  split at checked
  · rename_i next
    cases checked
    refine ⟨sentence, rfl, ⟨few, shallow⟩, consumed.tokens_eq, ?_⟩
    intro token head
    simp [Pending.next?, head] at next
  · rename_i next
    cases checked
    refine ⟨sentence, rfl, ⟨few, shallow⟩, consumed.tokens_eq, ?_⟩
    intro token head
    simpa [Pending.next?, head] using next
  · cases checked

end Statement

namespace Script

/-- A derivation of what is behind separators extends over them. -/
theorem exists_of_dropWhile (tokens : List Token) (script : Script)
    (yieldEq : script.yield = tokens.dropWhile (fun token => token.kind == .separator)) :
    ∃ whole : Script, whole.yield = tokens ∧ whole.sentences = script.sentences := by
  induction tokens with
  | nil => exact ⟨script, yieldEq, rfl⟩
  | cons token others ih =>
      obtain ⟨kind, position⟩ := token
      by_cases isSeparator : kind = .separator
      · subst isSeparator
        obtain ⟨whole, wholeEq, sentencesEq⟩ := ih yieldEq
        exact ⟨.separator position whole, congrArg _ wholeEq, sentencesEq⟩
      · have keeps : (kind == TokenKind.separator) = false := by simp [isSeparator]
        simp only [List.dropWhile_cons, keeps, Bool.false_eq_true, ↓reduceIte] at yieldEq
        exact ⟨script, yieldEq, rfl⟩

/-- A statement stands before a derivation that starts with a separator or is empty. -/
theorem exists_of_sentence (body : Sentence) (script : Script)
    (ended : Sentence.Ends script.yield) :
    ∃ whole : Script, whole.yield = body.yield ++ script.yield ∧
      whole.sentences = body :: script.sentences := by
  have noSentence : ∀ (other : Sentence) (rest : List Token),
      ¬ Sentence.Ends (other.yield ++ rest) := by
    intro other rest otherEnds
    obtain ⟨token, tail, yieldEq, noSeparator⟩ := other.exists_yield
    rw [yieldEq] at otherEnds
    exact noSeparator (otherEnds token rfl)
  cases script with
  | finish => exact ⟨.last body, (List.append_nil _).symm, rfl⟩
  | separator position others => exact ⟨.sentence body position others, rfl, rfl⟩
  | last other =>
      rw [yield, ← List.append_nil other.yield] at ended
      exact absurd ended (noSentence other [])
  | sentence other position others => exact absurd ended (noSentence other _)

end Script

/-- A statement that is read uses up at least one token. -/
theorem Pending.exists_suffix_of_read {start rest : Pending} {statement : Statement}
    (read : Statement.read start = .ok (statement, rest)) :
    ∃ token others, start.tokens = token :: others ∧ rest.tokens <:+ others := by
  obtain ⟨sentence, _, _, tokensEq, _⟩ := Statement.read_sound read
  obtain ⟨token, others, yieldEq, _⟩ := sentence.exists_yield
  rw [yieldEq] at tokensEq
  exact ⟨token, others ++ rest.tokens, tokensEq, List.suffix_append _ _⟩

theorem Statement.readAll_sound (stop : Position) (steps : List Token) :
    ∀ tokens before statements, tokens.length ≤ steps.length →
      readAll stop steps tokens before = .ok statements →
      ∃ script : Script, script.yield = tokens ∧ before.toList ++ script.trees = statements ∧
        ∀ sentence ∈ script.sentences, sentence.Fits := by
  induction steps with
  | nil =>
      intro tokens before statements enough read
      cases read
      have noTokens : tokens = [] := List.eq_nil_of_length_eq_zero (Nat.le_zero.mp enough)
      subst noTokens
      exact ⟨.finish, rfl, List.append_nil _, nofun⟩
  | cons step steps ih =>
      intro tokens before statements enough readRest
      simp only [readAll] at readRest
      split at readRest
      · rename_i onlySeparators
        cases readRest
        obtain ⟨script, yieldEq, sentencesEq⟩ :=
          Script.exists_of_dropWhile tokens .finish onlySeparators.symm
        refine ⟨script, yieldEq, ?_, ?_⟩
        · rw [Script.trees, sentencesEq]
          exact List.append_nil _
        · rw [sentencesEq]
          exact nofun
      · rename_i nonempty
        split at readRest
        · cases readRest
        · rename_i statement rest sentenceRead
          obtain ⟨body, rfl, fits, tokensEq, ended⟩ := read_sound sentenceRead
          dsimp only at tokensEq
          obtain ⟨token, tail, bodyEq, _⟩ := body.exists_yield
          have shorter : rest.tokens.length ≤ steps.length := by
            have suffixLe := (List.dropWhile_suffix
              (fun token : Token => token.kind == .separator) (l := tokens)).length_le
            have lengths := congrArg List.length tokensEq
            rw [bodyEq] at lengths
            simp only [List.length_append, List.length_cons] at lengths enough
            omega
          obtain ⟨later, laterEq, treesEq, laterFit⟩ := ih _ _ _ shorter readRest
          obtain ⟨script, scriptEq, sentencesEq⟩ :=
            Script.exists_of_sentence body later (laterEq ▸ ended)
          obtain ⟨whole, wholeEq, wholeSentences⟩ := Script.exists_of_dropWhile tokens script
            (by rw [scriptEq, laterEq, tokensEq])
          refine ⟨whole, wholeEq, ?_, ?_⟩
          · rw [← treesEq, Script.trees, Script.trees, wholeSentences, sentencesEq]
            simp
          · rw [wholeSentences, sentencesEq]
            intro sentence member
            rcases List.mem_cons.mp member with rfl | inLater
            · exact fits
            · exact laterFit sentence inLater

end SignalPatch
