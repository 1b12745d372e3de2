import SignalPatch.Proofs.Language.ReaderCalls

/-!
# Terms that are passed

Between one call of a reader and another one, tokens are passed, and the terms among them are
counted.  What readers call goes on behind at least one token, or is a simpler phrase on the
same tokens.  The reader of a phrase passes at least one token, and counts as many terms as
the tree has that it returns.
-/

namespace SignalPatch

/-- Whether a token is a term of the statement that it is in: a value, a name or an operator. -/
def TokenKind.isTerm : TokenKind → Bool
  | name _ | number _ | builtin _ | plus | minus | star | slash | caret | percent => true
  | openParenthesis | closeParenthesis | comma | equals | separator => false

def Token.isTerm (token : Token) : Bool :=
  token.kind.isTerm

theorem CallHead.isTerm_kind (head : CallHead) : head.kind.isTerm = true := by
  cases head <;> rfl

theorem Level.isTerm_of_operator? {level : Level} {symbol : TokenKind}
    {operator : BinaryOperator} (joins : level.operator? symbol = some operator) :
    symbol.isTerm = true := by
  cases level <;> cases symbol <;> first | rfl | cases joins

mutual

/-- A phrase has as many terms as there are terms among its tokens. -/
theorem Phrase.terms_eq_countP {level : Level} (phrase : Phrase level) :
    phrase.terms = phrase.yield.countP Token.isTerm := by
  cases phrase with
  | number | name => rfl
  | call head position opening first others closing =>
      have firstEq := first.terms_eq_countP
      have othersEq := others.terms_eq_countP
      have headEq : (⟨head.kind, position⟩ : Token).isTerm = true := head.isTerm_kind
      simp only [Phrase.terms, Phrase.yield, List.countP_cons, List.countP_append, headEq,
        ← firstEq, ← othersEq]
      rfl
  | parentheses opening inner closing =>
      have innerEq := inner.terms_eq_countP
      simp only [Phrase.terms, Phrase.yield, List.countP_cons, List.countP_append, ← innerEq]
      rfl
  | unsigned operand => exact operand.terms_eq_countP
  | negated position operand =>
      have operandEq := operand.terms_eq_countP
      simp only [Phrase.terms, Phrase.yield, List.countP_cons, ← operandEq]
      rfl
  | plain base => exact base.terms_eq_countP
  | power base position exponent =>
      have baseEq := base.terms_eq_countP
      have exponentEq := exponent.terms_eq_countP
      simp only [Phrase.terms, Phrase.yield, List.countP_cons, List.countP_append, ← baseEq,
        ← exponentEq]
      rfl
  | term first others =>
      have firstEq := first.terms_eq_countP
      have othersEq := others.terms_eq_countP
      simp only [Phrase.terms, Phrase.yield, List.countP_append, ← firstEq, ← othersEq]
  | expression first others =>
      have firstEq := first.terms_eq_countP
      have othersEq := others.terms_eq_countP
      simp only [Phrase.terms, Phrase.yield, List.countP_append, ← firstEq, ← othersEq]

theorem Chain.terms_eq_countP {level : Level} :
    ∀ chain : Chain level, chain.terms = chain.yield.countP Token.isTerm
  | .finish => rfl
  | .join symbol operator joins position operand others => by
      have operandEq := operand.terms_eq_countP
      have othersEq := others.terms_eq_countP
      have symbolEq : (⟨symbol, position⟩ : Token).isTerm = true := Level.isTerm_of_operator? joins
      simp only [Chain.terms, Chain.yield, List.countP_cons, List.countP_append, symbolEq,
        ← operandEq, ← othersEq, ↓reduceIte]
      omega

theorem Arguments.terms_eq_countP (arguments : Arguments) :
    arguments.terms = arguments.yield.countP Token.isTerm := by
  cases arguments with
  | finish => rfl
  | next comma argument others =>
      have argumentEq := argument.terms_eq_countP
      have othersEq := others.terms_eq_countP
      simp only [Arguments.terms, Arguments.yield, List.countP_cons, List.countP_append,
        ← argumentEq, ← othersEq]
      rfl

end

namespace Pending

/-- Tokens are passed, and the terms among them are counted. -/
def Passes (pending : Pending) (consumed : List Token) (rest : Pending) : Prop :=
  pending.Consumes consumed (consumed.countP Token.isTerm) rest

variable {pending middle rest : Pending}

theorem Passes.append {first second : List Token} (left : pending.Passes first middle)
    (right : middle.Passes second rest) : pending.Passes (first ++ second) rest := by
  have whole := Consumes.append left right
  rw [← List.countP_append] at whole
  exact whole

/-- The next token is passed, and counted if it is a term. -/
theorem passes_next {kind : TokenKind} (next : pending.next? = some kind)
    (tokensEq : rest.tokens = pending.advance.tokens) (stopEq : rest.stop = pending.stop)
    (termsEq : rest.terms = pending.terms + if kind.isTerm then 1 else 0)
    (few : kind.isTerm = true → pending.terms < maxTerms) :
    pending.Passes [⟨kind, pending.position⟩] rest := by
  have consumed := consumes_advance next
  refine ⟨by rw [consumed.tokens_eq, tokensEq], stopEq, ?_, ?_⟩
  · rw [termsEq, List.countP_singleton]
    rfl
  · rw [termsEq]
    split
    · rename_i isTerm
      exact fun _ => few isTerm
    · exact id

end Pending

/-- The reader of a level returns the tree of what it passes, which is not nothing. -/
theorem Level.passes_of_read (level : Level) {levels : Nat} {pending rest : Pending}
    {tree : Expression} (read : level.reader (.ofLevels levels) pending = .ok (tree, rest)) :
    ∃ token others, pending.Passes (token :: others) rest ∧
      rest.terms = pending.terms + tree.terms := by
  have sound := Nested.sound_ofLevels levels
  have readerSound : level.Sound (levels + 1) (level.reader (.ofLevels levels)) := by
    cases level with
    | primary => exact Grammar.primary_sound sound
    | signed => exact Grammar.signed_sound sound
    | factor => exact Grammar.factor_sound sound
    | term => exact Grammar.term_sound sound
    | expression => exact Grammar.expression_sound sound
  obtain ⟨phrase, rfl, _, consumed, _⟩ := readerSound _ _ _ read
  have termsEq := consumed.terms_eq
  rw [← phrase.terms_tree] at termsEq
  obtain ⟨token, others, yieldEq, _⟩ := phrase.exists_yield
  rw [phrase.terms_eq_countP, yieldEq] at consumed
  exact ⟨token, others, consumed, termsEq⟩

theorem Grammar.passes_of_arguments {levels : Nat} {pending rest : Pending}
    {trees : List Expression}
    (read : arguments (.ofLevels levels) pending = .ok (trees, rest)) :
    ∃ token others, pending.Passes (token :: others) rest := by
  obtain ⟨first, others, _, _, _, consumed, _⟩ :=
    arguments_sound (Nested.sound_ofLevels levels) _ _ _ read
  obtain ⟨token, tail, yieldEq, _⟩ := first.exists_yield
  rw [first.terms_eq_countP, others.terms_eq_countP, ← List.countP_append, yieldEq] at consumed
  exact ⟨token, tail ++ others.yield, consumed⟩

namespace Parser

variable {stream : TokenStream} {beyond : List Mark} {levels : Nat} {level : Level}
  {parser middle after counted : Parser} {kind : TokenKind} {tree : Expression}

variable (stream beyond) in
/-- A parser goes on, and the terms among the tokens that it passes are counted. -/
structure Passes (parser : Parser) (consumed : List Token) (after : Parser) : Prop where
  behind : Behind stream beyond parser after
  passes : (parser.pending stream).Passes consumed (after.pending stream)

theorem Passes.refl (on : parser.On stream beyond) : Passes stream beyond parser [] parser :=
  ⟨.refl on, .refl _⟩

theorem Passes.append {first second : List Token} (left : Passes stream beyond parser first middle)
    (right : Passes stream beyond middle second after) :
    Passes stream beyond parser (first ++ second) after :=
  ⟨left.behind.trans right.behind, left.passes.append right.passes⟩

/-- So many marks are passed as there are tokens. -/
theorem Passes.index_eq {consumed : List Token}
    (passes : Passes stream beyond parser consumed after) (on : parser.On stream beyond) :
    after.index = parser.index + consumed.length := by
  have lengths := congrArg List.length passes.passes.tokens_eq
  have onLe := on.index_le
  have afterLe := passes.behind.on.index_le
  simp only [pending, List.length_append, List.length_drop] at lengths
  omega

namespace On

variable (on : parser.On stream beyond)

include on

theorem passes_advanced (next : parser.next.kind = some kind) (noTerm : kind.isTerm = false) :
    ∃ token, Passes stream beyond parser [token] parser.advanced := by
  rw [on.next_eq] at next
  obtain ⟨behind, pendingEq, _⟩ := on.behind_advanced next
  refine ⟨_, behind, Pending.passes_next next ?_ ?_ ?_ ?_⟩
  · rw [pendingEq]
  · rw [pendingEq]
    rfl
  · rw [pendingEq, noTerm]
    rfl
  · rw [noTerm]
    exact nofun

theorem passes_counted (next : parser.next.kind = some kind) (isTerm : kind.isTerm = true)
    (count : countTerm parser = .ok () counted) :
    ∃ token, Passes stream beyond parser [token] counted.advanced := by
  obtain ⟨few, rfl⟩ := countTerm_eq_ok count
  rw [on.next_eq] at next
  have onCounted : parser.counted.On stream beyond := ⟨on.marks_eq, on.index_le⟩
  obtain ⟨behind, pendingEq, _⟩ := onCounted.behind_advanced next
  refine ⟨_, ⟨behind.on, behind.depth_eq, behind.index_le⟩, Pending.passes_next next ?_ ?_ ?_ ?_⟩
  · rw [pendingEq]
    rfl
  · rw [pendingEq]
    rfl
  · rw [pendingEq, isTerm]
    rfl
  · exact fun _ => few

theorem passes_expected {opened : Parser} (opening : expect kind parser = .ok () opened)
    (noTerm : kind.isTerm = false) : ∃ token, Passes stream beyond parser [token] opened := by
  obtain ⟨isNext, rfl⟩ := expect_eq_ok opening
  exact on.passes_advanced (beq_iff_eq.mp isNext) noTerm

variable (depthEq : parser.depth + levels = maxNesting)

include depthEq

/-- A reader of a level returns the tree of what it passes, which is not nothing. -/
theorem passes_ofLevel (level : Level)
    (read : ofLevel (.ofLevels levels) level parser = .ok tree after) :
    ∃ token others, Passes stream beyond parser (token :: others) after ∧
      after.terms = parser.terms + tree.terms := by
  obtain ⟨behind, readList⟩ := (follows_ofLevel level depthEq parser on rfl).of_ok read
  obtain ⟨token, others, passes, termsEq⟩ := level.passes_of_read readList
  exact ⟨token, others, ⟨behind, passes⟩, termsEq⟩

theorem passes_arguments {trees : List Expression}
    (read : arguments (.ofLevels levels) parser = .ok trees after) :
    ∃ token others, Passes stream beyond parser (token :: others) after := by
  have follows := follows_arguments (followsNested_ofLevels stream beyond levels _ depthEq)
  obtain ⟨behind, readList⟩ := (follows parser on rfl).of_ok read
  obtain ⟨token, others, passes⟩ := Grammar.passes_of_arguments readList
  exact ⟨token, others, behind, passes⟩

end On

end Parser

namespace Task

open SignalPatch.Parser

variable {stream : TokenStream} {beyond : List Mark} {levels : Nat} {task next : Task}
  {parser nextParser : Parser}

/-- How many readers can be called one after the other on the same tokens. -/
def rank : Task → Nat
  | statements .. => 7
  | statement => 6
  | arguments => 5
  | phrase .expression => 4
  | phrase .term => 3
  | phrase .factor => 2
  | phrase .signed => 1
  | phrase .primary | separators _ | chain .. | call .. | moreArguments .. => 0

/-- Within a statement, what is called goes on behind the tokens that are passed before. -/
theorem Goes.passes (goes : Goes levels task parser next nextParser)
    (inner : task.isOutermost = false) (on : parser.On stream beyond)
    (depthEq : parser.depth + levels = maxNesting) :
    ∃ consumed, Passes stream beyond parser consumed nextParser ∧
      (consumed = [] → next.rank < task.rank) := by
  cases goes with
  | separators | separator | statement | nextStatement | assigned | bare => cases inner
  | first chains => exact ⟨[], .refl on, fun _ => by cases chains <;> exact Nat.lt_succ_self _⟩
  | others chains read =>
      obtain ⟨token, others, passes, _⟩ := on.passes_ofLevel depthEq _ read
      exact ⟨_, passes, nofun⟩
  | operand joins count =>
      obtain ⟨symbol, next, joins⟩ := Option.bind_eq_some_iff.mp joins
      obtain ⟨_, passes⟩ := on.passes_counted next (Level.isTerm_of_operator? joins) count
      exact ⟨_, passes, nofun⟩
  | nextOperand joins count read =>
      obtain ⟨symbol, next, joins⟩ := Option.bind_eq_some_iff.mp joins
      obtain ⟨_, symbolPasses⟩ := on.passes_counted next (Level.isTerm_of_operator? joins) count
      obtain ⟨_, _, passes, _⟩ := symbolPasses.behind.on.passes_ofLevel
        (by rw [symbolPasses.behind.depth_eq, depthEq]) _ read
      exact ⟨_, symbolPasses.append passes, nofun⟩
  | base => exact ⟨[], .refl on, fun _ => Nat.lt_succ_self _⟩
  | unsigned noMinus => exact ⟨[], .refl on, fun _ => Nat.lt_succ_self _⟩
  | call head isHead count opens =>
      obtain ⟨_, passes⟩ := on.passes_counted isHead head.isTerm_kind count
      exact ⟨_, passes, nofun⟩
  | argument => exact ⟨[], .refl on, fun _ => Nat.lt_succ_self _⟩
  | moreArguments read =>
      obtain ⟨_, _, passes, _⟩ := on.passes_ofLevel depthEq .expression read
      exact ⟨_, passes, nofun⟩
  | anotherArgument comma =>
      obtain ⟨_, passes⟩ := on.passes_advanced (beq_iff_eq.mp comma) rfl
      exact ⟨_, passes, nofun⟩
  | nextArgument comma read =>
      obtain ⟨_, commaPasses⟩ := on.passes_advanced (beq_iff_eq.mp comma) rfl
      obtain ⟨_, _, passes, _⟩ := commaPasses.behind.on.passes_ofLevel
        (by rw [commaPasses.behind.depth_eq, depthEq]) .expression read
      exact ⟨_, commaPasses.append passes, nofun⟩

/-- What encloses something starts with a token of its own. -/
theorem Opens.passes {enclosure : Enclosure}
    (opens : Opens levels task parser enclosure next nextParser) (on : parser.On stream beyond)
    (depthEq : parser.depth + levels = maxNesting) :
    ∃ token others, Passes stream beyond parser (token :: others) nextParser := by
  cases opens with
  | parentheses isNext =>
      obtain ⟨_, passes⟩ := on.passes_advanced isNext rfl
      exact ⟨_, _, passes⟩
  | arguments opening =>
      obtain ⟨_, passes⟩ := on.passes_expected opening rfl
      exact ⟨_, _, passes⟩
  | negation minus count =>
      obtain ⟨_, passes⟩ := on.passes_counted (beq_iff_eq.mp minus) rfl count
      exact ⟨_, _, passes⟩
  | exponent read caret count =>
      obtain ⟨_, _, passes, _⟩ := on.passes_ofLevel depthEq .signed read
      obtain ⟨_, caretPasses⟩ :=
        passes.behind.on.passes_counted (beq_iff_eq.mp caret) rfl count
      exact ⟨_, _, passes.append caretPasses⟩

/-- A term is met behind tokens that are passed, and it is next there. -/
theorem Meets.passes {meeting : Parser} (meets : Meets levels task parser meeting)
    (on : parser.On stream beyond) (depthEq : parser.depth + levels = maxNesting) :
    ∃ consumed kind, Passes stream beyond parser consumed meeting ∧
      meeting.next.kind = some kind ∧ kind.isTerm = true := by
  cases meets with
  | number isNumber => exact ⟨[], _, .refl on, isNumber, rfl⟩
  | name head isHead => exact ⟨[], _, .refl on, isHead, head.isTerm_kind⟩
  | minus isMinus => exact ⟨[], _, .refl on, beq_iff_eq.mp isMinus, rfl⟩
  | caret read isCaret =>
      obtain ⟨_, _, passes, _⟩ := on.passes_ofLevel depthEq .signed read
      exact ⟨_, _, passes, beq_iff_eq.mp isCaret, rfl⟩
  | operator joins =>
      obtain ⟨symbol, next, joins⟩ := Option.bind_eq_some_iff.mp joins
      exact ⟨[], symbol, .refl on, next, Level.isTerm_of_operator? joins⟩

end Task

end SignalPatch
