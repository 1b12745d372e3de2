import SignalPatch.Proofs.Language.Unambiguity

/-!
# What can be next

Which token can be next in a text is known from what is just before it and from the
parentheses that are still open.  Every derivation is passed token by token in this
way, and a token is refused only where no derivation goes on with it.  The end of a
text can be next just where a separator can be.
-/

namespace SignalPatch

inductive Bracket where
  | call | parentheses

/-- What is just before a point of a text. -/
inductive Mode where
  /-- the start of a statement -/
  | start
  /-- a name that starts a statement -/
  | target
  /-- an operator, a comma, an opening parenthesis or `=` -/
  | operand
  /-- the minus before a primary -/
  | negated
  /-- a function, which has to be called -/
  | function
  /-- the end of a primary, which may be a name -/
  | behind (named : Bool)

/-- What says which token can be next, with the innermost open bracket first. -/
structure Point where
  mode : Mode
  brackets : List Bracket

namespace Point

def start : Point :=
  ⟨.start, []⟩

def primaryStep (brackets : List Bracket) : TokenKind → Option Point
  | .number _ => some ⟨.behind false, brackets⟩
  | .name _ => some ⟨.behind true, brackets⟩
  | .builtin _ => some ⟨.function, brackets⟩
  | .openParenthesis => some ⟨.operand, .parentheses :: brackets⟩
  | _ => none

def operandStep (brackets : List Bracket) : TokenKind → Option Point
  | .minus => some ⟨.negated, brackets⟩
  | kind => primaryStep brackets kind

/-- Behind an expression that no operator continues. -/
def closingStep : List Bracket → TokenKind → Option Point
  | [], .separator => some start
  | _ :: outer, .closeParenthesis => some ⟨.behind false, outer⟩
  | .call :: outer, .comma => some ⟨.operand, .call :: outer⟩
  | _, _ => none

def behindStep (named : Bool) (brackets : List Bracket) (kind : TokenKind) : Option Point :=
  if kind = .openParenthesis then
    if named then some ⟨.operand, .call :: brackets⟩ else none
  else if Level.expression.continues kind then
    some ⟨.operand, brackets⟩
  else
    closingStep brackets kind

/-- The point behind a token, if the token can be next. -/
def step (point : Point) (kind : TokenKind) : Option Point :=
  match point.mode, kind with
  | .start, .separator => some point
  | .start, .name _ => some ⟨.target, point.brackets⟩
  | .start, kind => operandStep point.brackets kind
  | .target, .equals => some ⟨.operand, point.brackets⟩
  | .target, kind => behindStep true point.brackets kind
  | .operand, kind => operandStep point.brackets kind
  | .negated, kind => primaryStep point.brackets kind
  | .function, .openParenthesis => some ⟨.operand, .call :: point.brackets⟩
  | .function, _ => none
  | .behind named, kind => behindStep named point.brackets kind

/-- The point behind tokens, if each of them can be next where it is. -/
def after? (point : Point) (kinds : List TokenKind) : Option Point :=
  kinds.foldlM step point

theorem closingStep_eq_none {bracket : Bracket} {kind : TokenKind}
    (noClose : kind ≠ .closeParenthesis) (noComma : bracket = .call → kind ≠ .comma)
    (outer : List Bracket) : closingStep (bracket :: outer) kind = none := by
  cases kind with
  | closeParenthesis => exact absurd rfl noClose
  | comma =>
      cases bracket with
      | call => exact absurd rfl (noComma rfl)
      | parentheses => rfl
  | _ => cases bracket <;> rfl

theorem step_function_eq_none {kind : TokenKind} (noCall : kind ≠ .openParenthesis)
    (brackets : List Bracket) : (⟨.function, brackets⟩ : Point).step kind = none := by
  cases kind with
  | openParenthesis => exact absurd rfl noCall
  | _ => rfl

theorem after?_append (point : Point) (first second : List TokenKind) :
    point.after? (first ++ second) = (point.after? first).bind (·.after? second) :=
  List.foldlM_append

theorem after?_cons {point next : Point} {kind : TokenKind} (passed : point.step kind = some next)
    (others : List TokenKind) : point.after? (kind :: others) = next.after? others := by
  simp [after?, passed]

theorem after?_concat (point : Point) (kinds : List TokenKind) (last : TokenKind) :
    point.after? (kinds ++ [last]) = (point.after? kinds).bind (·.step last) := by
  rw [after?_append]
  congr 1
  funext reached
  exact bind_pure _

theorem isSome_after?_of_prefix {point : Point} {front whole : List TokenKind}
    (isFront : front <+: whole) (passed : (point.after? whole).isSome) :
    (point.after? front).isSome := by
  obtain ⟨others, rfl⟩ := isFront
  rw [after?_append] at passed
  cases frontPassed : point.after? front with
  | none =>
      rw [frontPassed] at passed
      cases passed
  | some reached => rfl

theorem after?_append_of_eq {point middle : Point} {first : List TokenKind}
    (passed : point.after? first = some middle) (second : List TokenKind) :
    point.after? (first ++ second) = middle.after? second := by
  rw [after?_append, passed]
  rfl

end Point

/-- The point at the start of a phrase, where only a primary has a minus before it. -/
def Level.entry (level : Level) (brackets : List Bracket) : Point :=
  ⟨if level = .primary then .negated else .operand, brackets⟩

theorem Level.primary_entry (brackets : List Bracket) :
    primary.entry brackets = ⟨.negated, brackets⟩ :=
  rfl

mutual

/-- Whether a phrase ends with a name, which a parenthesis would make a call. -/
def Phrase.endsInName {level : Level} : Phrase level → Bool
  | .number .. | .call .. | .parentheses .. => false
  | .name .. => true
  | .unsigned operand => operand.endsInName
  | .negated _ operand => operand.endsInName
  | .plain base => base.endsInName
  | .power _ _ exponent => exponent.endsInName
  | .term first others => others.endsInName first.endsInName
  | .expression first others => others.endsInName first.endsInName

def Chain.endsInName {level : Level} (before : Bool) : Chain level → Bool
  | .finish => before
  | .join _ _ _ _ operand others => others.endsInName operand.endsInName

def Arguments.endsInName (before : Bool) : Arguments → Bool
  | .finish => before
  | .next _ argument others => others.endsInName argument.endsInName

end

/-- What is next continues no phrase of a level, which ends with a name or does not. -/
def Level.StopsAt (level : Level) (named : Bool) (next : Option TokenKind) : Prop :=
  ∀ kind, next = some kind → level.continues kind = true →
    kind = .openParenthesis ∧ named = false

namespace Level

variable {named : Bool} {next : Option TokenKind}

theorem stopsAt_primary (noCall : named = true → next ≠ some .openParenthesis) :
    primary.StopsAt named next := by
  rintro kind rfl continued
  obtain rfl : kind = .openParenthesis := by simpa [continues] using continued
  exact ⟨rfl, by simpa using noCall⟩

theorem StopsAt.factor (stops : signed.StopsAt named next) (noCaret : next ≠ some .caret) :
    Level.factor.StopsAt named next := by
  rintro kind rfl continued
  simp only [continues, Bool.or_eq_true, beq_iff_eq] at continued
  rcases continued with parenthesis | caret
  · exact stops kind rfl (by simp [continues, parenthesis])
  · exact absurd (congrArg some caret) noCaret

theorem StopsAt.term (stops : Level.factor.StopsAt named next)
    (noOperator : next.bind Level.factor.operator? = none) : Level.term.StopsAt named next := by
  rintro kind rfl continued
  have noMultiplicative : Level.factor.operator? kind = none := noOperator
  apply stops kind rfl
  simpa [continues, noMultiplicative] using continued

theorem StopsAt.expression (stops : Level.term.StopsAt named next)
    (noOperator : next.bind Level.term.operator? = none) :
    Level.expression.StopsAt named next := by
  rintro kind rfl continued
  have noAdditive : Level.term.operator? kind = none := noOperator
  apply stops kind rfl
  simpa [continues, noAdditive] using continued

end Level

namespace Point

theorem step_join {level : Level} {symbol : TokenKind} {operator : BinaryOperator}
    (joins : level.operator? symbol = some operator) (named : Bool) (brackets : List Bracket) :
    (⟨.behind named, brackets⟩ : Point).step symbol = some (level.entry brackets) := by
  cases level <;> cases symbol <;> first | rfl | cases joins

theorem after?_callHead (head : CallHead) (brackets : List Bracket) (others : List TokenKind) :
    (⟨.negated, brackets⟩ : Point).after? (head.kind :: .openParenthesis :: others) =
      (Level.expression.entry (.call :: brackets)).after? others := by
  cases head <;> rfl

/-- A primary can stand wherever a negated one can. -/
theorem after?_primary (operand : Phrase .primary) (brackets : List Bracket) :
    (⟨.operand, brackets⟩ : Point).after? (operand.yield.map Token.kind) =
      (⟨.negated, brackets⟩ : Point).after? (operand.yield.map Token.kind) := by
  cases operand with
  | call head => cases head <;> rfl
  | number | name | parentheses => rfl

theorem step_separator {point next : Point} (passed : point.step .separator = some next) :
    next.mode = .start := by
  obtain ⟨mode, brackets⟩ := point
  cases mode <;> cases brackets <;> cases passed <;> rfl

end Point

mutual

/-- A phrase is passed wherever it can start, and leaves the brackets around it as they are. -/
theorem Phrase.after?_yield {level : Level} (phrase : Phrase level) (brackets : List Bracket) :
    (level.entry brackets).after? (phrase.yield.map Token.kind) =
      some ⟨.behind phrase.endsInName, brackets⟩ := by
  cases phrase with
  | number | name => rfl
  | call head position opening first others closing =>
      have firstPassed := first.after?_yield (.call :: brackets)
      have othersPassed := others.after?_yield first.endsInName brackets
      simp only [Phrase.yield, List.map_cons, List.map_append, List.append_assoc]
      rw [Level.primary_entry, Point.after?_callHead, Point.after?_append_of_eq firstPassed,
        Point.after?_append_of_eq othersPassed]
      rfl
  | parentheses opening inner closing =>
      have innerPassed := inner.after?_yield (.parentheses :: brackets)
      simp only [Phrase.yield, List.map_cons, List.map_append]
      change (Level.expression.entry (.parentheses :: brackets)).after? _ = _
      rw [Point.after?_append_of_eq innerPassed]
      rfl
  | unsigned operand =>
      have operandPassed := operand.after?_yield brackets
      exact (Point.after?_primary operand brackets).trans operandPassed
  | negated position operand => exact operand.after?_yield brackets
  | plain base => exact base.after?_yield brackets
  | power base position exponent =>
      have basePassed := base.after?_yield brackets
      have exponentPassed := exponent.after?_yield brackets
      simp only [Phrase.yield, List.map_cons, List.map_append]
      change (Level.signed.entry brackets).after? _ = _
      rw [Point.after?_append_of_eq basePassed]
      exact exponentPassed
  | term first others =>
      have firstPassed := first.after?_yield brackets
      have othersPassed := Chain.after?_yield brackets others first.endsInName
      simp only [Phrase.yield, List.map_append]
      exact (Point.after?_append_of_eq firstPassed _).trans othersPassed
  | expression first others =>
      have firstPassed := first.after?_yield brackets
      have othersPassed := Chain.after?_yield brackets others first.endsInName
      simp only [Phrase.yield, List.map_append]
      exact (Point.after?_append_of_eq firstPassed _).trans othersPassed

theorem Chain.after?_yield {level : Level} (brackets : List Bracket) :
    ∀ (chain : Chain level) (named : Bool),
      (⟨.behind named, brackets⟩ : Point).after? (chain.yield.map Token.kind) =
        some ⟨.behind (chain.endsInName named), brackets⟩
  | .finish, _ => rfl
  | .join _ _ joins _ operand others, named => by
      have operandPassed := operand.after?_yield brackets
      have othersPassed := Chain.after?_yield brackets others operand.endsInName
      simp only [Chain.yield, List.map_cons, List.map_append]
      rw [Point.after?_cons (Point.step_join joins named brackets),
        Point.after?_append_of_eq operandPassed]
      exact othersPassed

theorem Arguments.after?_yield (arguments : Arguments) (named : Bool)
    (brackets : List Bracket) :
    (⟨.behind named, .call :: brackets⟩ : Point).after? (arguments.yield.map Token.kind) =
      some ⟨.behind (arguments.endsInName named), .call :: brackets⟩ := by
  cases arguments with
  | finish => rfl
  | next comma argument others =>
      have argumentPassed := argument.after?_yield (.call :: brackets)
      have othersPassed := others.after?_yield argument.endsInName brackets
      simp only [Arguments.yield, List.map_cons, List.map_append]
      change (Level.expression.entry (.call :: brackets)).after? _ = _
      rw [Point.after?_append_of_eq argumentPassed]
      exact othersPassed

end

/-- A statement that starts with an expression is passed like the expression. -/
theorem Point.after?_start {kind : TokenKind} {others : List TokenKind}
    (noSeparator : kind ≠ .separator) (more : others ≠ [])
    (noAssignment : ∀ target, kind = .name target → others.head? ≠ some .equals) :
    start.after? (kind :: others) = (⟨.operand, []⟩ : Point).after? (kind :: others) := by
  cases kind with
  | separator => exact absurd rfl noSeparator
  | name target =>
      cases others with
      | nil => exact absurd rfl more
      | cons next others =>
          have noEquals := noAssignment target rfl
          cases next with
          | equals => exact absurd rfl noEquals
          | _ => rfl
  | _ => rfl

theorem Point.after?_start_eq_none {kind : TokenKind} {others : List TokenKind}
    (noSeparator : kind ≠ .separator)
    (noAssignment : ∀ target, kind = .name target → others.head? ≠ some .equals)
    (stuck : (⟨.operand, []⟩ : Point).after? (kind :: others) = none) :
    start.after? (kind :: others) = none := by
  cases others with
  | nil =>
      cases kind with
      | separator => exact absurd rfl noSeparator
      | name target => cases stuck
      | _ => exact stuck
  | cons next others =>
      rw [after?_start noSeparator (List.cons_ne_nil _ _) noAssignment]
      exact stuck

/-- Behind an expression that is not inside of brackets a statement can end. -/
theorem Phrase.after?_statement (value : Phrase .expression) :
    (Level.expression.entry []).after? (value.yield.map Token.kind ++ [.separator]) =
      some .start := by
  rw [Point.after?_append_of_eq (value.after?_yield [])]
  cases value.endsInName <;> rfl

theorem Phrase.getLast?_yield {level : Level} (phrase : Phrase level) :
    ∀ last ∈ phrase.yield.getLast?, last.kind ≠ .separator := by
  intro last member isSeparator
  have passed := phrase.after?_yield []
  obtain ⟨front, yieldEq⟩ := List.getLast?_eq_some_iff.mp member
  rw [yieldEq, List.map_append, List.map_singleton, Point.after?_concat, isSeparator] at passed
  obtain ⟨before, _, stepped⟩ := Option.bind_eq_some_iff.mp passed
  cases Point.step_separator stepped

namespace Sentence

theorem after?_yield (sentence : Sentence) :
    Point.start.after? (sentence.yield.map Token.kind ++ [.separator]) = some .start := by
  cases sentence with
  | assignment target position equals value => exact value.after?_statement
  | bare value =>
      obtain ⟨token, others, yieldEq, noSeparator⟩ := value.exists_yield
      rw [← value.after?_statement]
      simp only [yield, yieldEq, List.map_cons, List.cons_append]
      apply Point.after?_start noSeparator (by simp)
      intro target nameEq head
      cases others with
      | nil => cases head
      | cons next others =>
          obtain ⟨kind, position⟩ := token
          obtain ⟨nextKind, nextPosition⟩ := next
          cases nameEq
          cases head
          have different : (⟨.name target, position⟩ : Token) :: ⟨.equals, nextPosition⟩ :: others ≠
              value.yield ++ [] :=
            assignment_ne_bare ends_nil _ _ _
          exact different (by rw [List.append_nil, yieldEq])

theorem getLast?_yield (sentence : Sentence) :
    ∀ last ∈ sentence.yield.getLast?, last.kind ≠ .separator := by
  intro last member
  apply sentence.value.getLast?_yield
  cases sentence with
  | bare value => exact member
  | assignment target position equals value =>
      obtain ⟨token, others, yieldEq, _⟩ := value.exists_yield
      simp only [yield, yieldEq, List.getLast?_cons_cons] at member
      change last ∈ value.yield.getLast?
      rw [yieldEq]
      exact member

end Sentence

namespace Script

/-- A text is passed up to its end, which is like a separator. -/
theorem after?_yield (script : Script) :
    Point.start.after? (script.yield.map Token.kind ++ [.separator]) = some .start := by
  induction script with
  | finish => rfl
  | separator position others ih => exact ih
  | last body => exact body.after?_yield
  | sentence body position others ih =>
      have passed := body.after?_yield
      have whole := Point.after?_append_of_eq passed
        (others.yield.map Token.kind ++ [.separator])
      rw [ih, List.append_assoc] at whole
      simpa [yield] using whole

/-- What is written up to a separator or the start of a text leads to the start of a statement. -/
theorem after?_yield_apart (script : Script)
    (apart : ∀ last ∈ script.yield.getLast?, last.kind = .separator) :
    Point.start.after? (script.yield.map Token.kind) = some .start := by
  cases lastEq : script.yield.getLast? with
  | none => rw [List.getLast?_eq_none_iff.mp lastEq]; rfl
  | some last =>
      obtain ⟨front, yieldEq⟩ := List.getLast?_eq_some_iff.mp lastEq
      have passed := script.after?_yield
      rw [Point.after?_concat] at passed
      obtain ⟨⟨mode, brackets⟩, reached, endStepped⟩ := Option.bind_eq_some_iff.mp passed
      have lastReached := reached
      rw [yieldEq, List.map_append, List.map_singleton, Point.after?_concat,
        apart last lastEq] at lastReached
      obtain ⟨point, _, lastStepped⟩ := Option.bind_eq_some_iff.mp lastReached
      obtain rfl : mode = .start := Point.step_separator lastStepped
      rw [reached]
      exact endStepped

/-- Behind a separator any other text can stand. -/
theorem exists_behind (script other : Script)
    (apart : ∀ last ∈ script.yield.getLast?, last.kind = .separator) :
    ∃ whole : Script, whole.yield = script.yield ++ other.yield := by
  induction script with
  | finish => exact ⟨other, rfl⟩
  | separator position others ih =>
      obtain ⟨whole, wholeEq⟩ := ih (fun last member => apart last (by
        rw [yield, List.getLast?_cons, member]
        rfl))
      exact ⟨.separator position whole, congrArg _ wholeEq⟩
  | last body =>
      obtain ⟨token, tail, yieldEq, _⟩ := body.exists_yield
      have nonempty : body.yield ≠ [] := by simp [yieldEq]
      have member := List.getLast?_eq_some_getLast nonempty
      exact absurd (apart _ member) (body.getLast?_yield _ member)
  | sentence body position others ih =>
      obtain ⟨whole, wholeEq⟩ := ih (fun last member => apart last (by
        rw [yield, List.getLast?_append, List.getLast?_cons, member]
        rfl))
      refine ⟨.sentence body position whole, ?_⟩
      rw [yield, yield, wholeEq]
      simp

end Script

end SignalPatch
