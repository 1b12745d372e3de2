import SignalPatch.Proofs.Language.Derivation

/-!
# Readers of lists

The readers of the grammar once more, without what they share: each is given the tokens that
are left, and returns those behind what it has read.  What may still be nested is known from
the readers that a reader is built from, not from a count.
-/

namespace SignalPatch

/-- The tokens still to be read, and the number of terms read in this statement. -/
structure Pending where
  tokens : List Token
  stop : Position
  terms : Nat

namespace Pending

/-- The next token, apart from where it stands. -/
def next? (pending : Pending) : Option TokenKind :=
  pending.tokens.head?.map Token.kind

/-- The position of the next token, or of the end. -/
def position (pending : Pending) : Position :=
  match pending.tokens with
  | token :: _ => token.position
  | [] => pending.stop

def advance (pending : Pending) : Pending :=
  ⟨pending.tokens.tail, pending.stop, pending.terms⟩

def refuse {Result : Type} (pending : Pending) (cause : Cause) : Except Fault Result :=
  .error ⟨cause, pending.position⟩

/-- The fault that the next token is not what the grammar asks for. -/
def unexpected {Result : Type} (pending : Pending) (wanted : Wanted) : Except Fault Result :=
  pending.refuse (.unexpectedToken wanted pending.next?)

def countTerm (pending : Pending) : Except Fault Pending :=
  if pending.terms < maxTerms then
    .ok ⟨pending.tokens, pending.stop, pending.terms + 1⟩
  else
    pending.refuse .tooManyTerms

def close (pending : Pending) : Except Fault Pending :=
  match pending.next? with
  | some .closeParenthesis => .ok pending.advance
  | _ => pending.unexpected (.token .closeParenthesis)

end Pending

abbrev Reader (Phrase : Type) := Pending → Except Fault (Phrase × Pending)

/-- The readers of the phrases that are nested one level deeper. -/
structure Nested where
  primary : Reader Expression
  factor : Reader Expression
  expression : Reader Expression
  arguments : Reader (List Expression)

namespace Nested

/-- The readers below the deepest level. -/
def refused : Nested where
  primary pending := pending.refuse .nestedTooDeeply
  factor pending := pending.refuse .nestedTooDeeply
  expression pending := pending.refuse .nestedTooDeeply
  arguments pending := pending.refuse .nestedTooDeeply

end Nested

namespace Grammar

/--
Further operands of a chain that groups to the left.  Each operator uses up a
token, so one step for every token left is enough.
-/
def chain (operand : Reader Expression) (operator? : TokenKind → Option BinaryOperator) :
    List Token → Expression → Reader Expression
  | [], left, pending => .ok (left, pending)
  | _ :: steps, left, pending =>
      match pending.next?.bind operator? with
      | none => .ok (left, pending)
      | some operator =>
          match pending.countTerm with
          | .error fault => .error fault
          | .ok counted =>
              match operand counted.advance with
              | .error fault => .error fault
              | .ok (right, rest) =>
                  chain operand operator? steps
                    (.binary operator left right pending.position) rest

/-- Further arguments of a call, each behind a comma. -/
def moreArguments (expression : Reader Expression) :
    List Token → Array Expression → Reader (List Expression)
  | [], before, pending => .ok (before.toList, pending)
  | _ :: steps, before, pending =>
      match pending.next? with
      | some .comma =>
          match expression pending.advance with
          | .error fault => .error fault
          | .ok (argument, rest) =>
              moreArguments expression steps (before.push argument) rest
      | _ => .ok (before.toList, pending)

/-- Another operand is read by the steps of a reader one after the other. -/
theorem chain_of_some {reader : Reader Expression}
    {operator? : TokenKind → Option BinaryOperator} {pending : Pending} {operator : BinaryOperator}
    (joins : pending.next?.bind operator? = some operator) (step : Token) (steps : List Token)
    (left : Expression) :
    chain reader operator? (step :: steps) left pending =
      pending.countTerm >>= fun counted => reader counted.advance >>= fun (right, rest) =>
        chain reader operator? steps (.binary operator left right pending.position)
          rest := by
  simp only [chain, joins]
  cases pending.countTerm with
  | error fault => rfl
  | ok counted =>
      dsimp only
      change _ = reader counted.advance >>= _
      cases reader counted.advance <;> rfl

/-- Another argument is read by the steps of a reader one after the other. -/
theorem moreArguments_of_comma {reader : Reader Expression} {pending : Pending}
    (isComma : pending.next? = some .comma) (step : Token) (steps : List Token)
    (before : Array Expression) :
    moreArguments reader (step :: steps) before pending =
      reader pending.advance >>= fun (argument, rest) =>
        moreArguments reader steps (before.push argument) rest := by
  simp only [moreArguments, isComma]
  cases reader pending.advance <;> rfl

variable (nested : Nested)

/-- The call of a name whose opening parenthesis is next. -/
def call (name : String) (position : Position) : Reader Expression := fun pending => do
  let (arguments, rest) ← nested.arguments pending.advance
  let rest ← rest.close
  return (.call name arguments position, rest)

/-- A number, a name, a call, or an expression in parentheses. -/
def primary : Reader Expression := fun pending =>
  match pending.next? with
  | some (.number value) => do
      let counted ← pending.countTerm
      return (.literal value pending.position, counted.advance)
  | some (.name text) => do
      let counted ← pending.countTerm
      match counted.advance.next? with
      | some .openParenthesis => call nested text pending.position counted.advance
      | _ => return (.reference text pending.position, counted.advance)
  | some (.builtin function) => do
      let counted ← pending.countTerm
      match counted.advance.next? with
      | some .openParenthesis => call nested function.name pending.position counted.advance
      | _ => counted.advance.unexpected (.openParenthesisAfter function)
  | some .openParenthesis => do
      let (inner, rest) ← nested.expression pending.advance
      let rest ← rest.close
      return (inner, rest)
  | _ => pending.unexpected .expression

/-- A primary, or the negation of one. -/
def signed : Reader Expression := fun pending =>
  match pending.next? with
  | some .minus => do
      let counted ← pending.countTerm
      let (operand, rest) ← nested.primary counted.advance
      return (.negate operand pending.position, rest)
  | _ => primary nested pending

/-- A signed primary, or a power of one. -/
def factor : Reader Expression := fun pending => do
  let (base, rest) ← signed nested pending
  match rest.next? with
  | some .caret => do
      let counted ← rest.countTerm
      let (exponent, behind) ← nested.factor counted.advance
      return (.binary .power base exponent rest.position, behind)
  | _ => return (base, rest)

/-- Factors joined by multiplicative operators. -/
def term : Reader Expression := fun pending => do
  let (first, rest) ← factor nested pending
  chain (factor nested) Level.factor.operator? rest.tokens first rest

/-- Terms joined by additive operators. -/
def expression : Reader Expression := fun pending => do
  let (first, rest) ← term nested pending
  chain (term nested) Level.term.operator? rest.tokens first rest

/-- The arguments of a call, of which there is at least one. -/
def arguments : Reader (List Expression) := fun pending => do
  let (first, rest) ← expression nested pending
  moreArguments (expression nested) rest.tokens #[first] rest

end Grammar

def Level.reader (nested : Nested) : Level → Reader Expression
  | primary => Grammar.primary nested
  | signed => Grammar.signed nested
  | factor => Grammar.factor nested
  | term => Grammar.term nested
  | expression => Grammar.expression nested

namespace Nested

/-- The readers of nested phrases where so many more levels may be nested. -/
def ofLevels : Nat → Nested
  | 0 => refused
  | levels + 1 =>
      let deeper := ofLevels levels
      ⟨Grammar.primary deeper, Grammar.factor deeper, Grammar.expression deeper,
        Grammar.arguments deeper⟩

def outermost : Nested :=
  ofLevels maxNesting

end Nested

namespace Statement

/-- An assignment or a bare expression, without what has to be behind it. -/
def readBody : Reader Statement := fun pending =>
  match pending.tokens with
  | ⟨.name target, position⟩ :: ⟨.equals, _⟩ :: tokens => do
      let (value, rest) ← Grammar.expression .outermost ⟨tokens, pending.stop, pending.terms⟩
      return (.assign target value position, rest)
  | ⟨.builtin function, position⟩ :: ⟨.equals, _⟩ :: _ =>
      .error ⟨.assignedFunction function, position⟩
  | _ => do
      let (value, rest) ← Grammar.expression .outermost pending
      return (.bare value, rest)

/-- A statement, behind which there has to be a separator or the end. -/
def read : Reader Statement := fun pending => do
  let (statement, rest) ← readBody ⟨pending.tokens, pending.stop, 0⟩
  match rest.next? with
  | none | some .separator => return (statement, rest)
  | _ => rest.unexpected .endOfStatement

/--
The statements behind those read before.  Each uses up a token, so one step for
every token is enough.
-/
def readAll (stop : Position) :
    List Token → List Token → Array Statement → Except ParseFailure (List Statement)
  | [], _, before => .ok before.toList
  | _ :: steps, tokens, before =>
      match tokens.dropWhile (fun token => token.kind == .separator) with
      | [] => .ok before.toList
      | tokens =>
          match read ⟨tokens, stop, 0⟩ with
          | .error fault => .error ⟨fault, before.toList⟩
          | .ok (statement, rest) => readAll stop steps rest.tokens (before.push statement)

variable {stop : Position} {step : Token} {steps tokens : List Token} {before : Array Statement}

theorem readAll_of_separators
    (onlySeparators : tokens.dropWhile (fun token => token.kind == .separator) = []) :
    readAll stop (step :: steps) tokens before = .ok before.toList := by
  simp only [readAll, onlySeparators]

/-- A statement starts where there is more than separators. -/
theorem readAll_of_start {start : Pending}
    (tokensEq : start.tokens = tokens.dropWhile (fun token => token.kind == .separator))
    (nonempty : start.tokens ≠ []) (stopEq : start.stop = stop) :
    readAll stop (step :: steps) tokens before =
      match read start with
      | .error fault => .error ⟨fault, before.toList⟩
      | .ok (statement, rest) => readAll stop steps rest.tokens (before.push statement) := by
  subst stopEq
  obtain ⟨startTokens, stop, terms⟩ := start
  cases startTokens with
  | nil => exact absurd rfl nonempty
  | cons token others =>
      simp only [readAll, ← tokensEq]
      -- a statement starts to count its terms anew
      rfl

end Statement

end SignalPatch
