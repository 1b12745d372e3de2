import SignalPatch.Language.Expression
import SignalPatch.Language.Lexer

/-!
# Reading statements

The grammar of patches, with one reader for each level of precedence:

    patch      = (statement? separator)* statement?
    statement  = name "=" expression | expression
    expression = term (("+" | "-") term)*
    term       = factor (("*" | "/" | "%") factor)*
    factor     = "-"? primary ("^" factor)?
    primary    = number | name | call | "(" expression ")"
    call       = name "(" expression ("," expression)* ")"

Operators of one level group to the left, powers to the right, and a minus
sign binds tighter than a power.  The readers share a cursor on the tokens, a
count of the terms of a statement, and the depth at which they are nested, which
parentheses, arguments, negated primaries and exponents raise while they are read.
-/

namespace SignalPatch

/-- A token, or the end of a text, which is no token. -/
structure Mark where
  kind : Option TokenKind
  position : Position
deriving DecidableEq

def Token.mark (token : Token) : Mark :=
  ⟨some token.kind, token.position⟩

/-- The tokens of a text, and its end behind them. -/
def TokenStream.marks (stream : TokenStream) : List Mark :=
  stream.tokens.map Token.mark ++ [⟨none, stream.stop⟩]

/-- What the readers of a text share. -/
structure Parser where
  marks : Array Mark
  /-- The number of marks that have been passed. -/
  index : Nat
  /-- How many parentheses, argument lists, negations and exponents are being read. -/
  depth : Nat
  /-- The number of terms that have been met in this statement. -/
  terms : Nat

abbrev Parsing (Phrase : Type) := EStateM Fault Parser Phrase

namespace Parser

def ofMarks (marks : Array Mark) : Parser :=
  ⟨marks, 0, 0, 0⟩

/-- The next mark, or the last one where all have been passed. -/
def next (parser : Parser) : Mark :=
  parser.marks.getD (min parser.index (parser.marks.size - 1)) ⟨none, ⟨0, 0⟩⟩

/-- What kind of mark is behind the next one, if there is any. -/
def kindAfterNext? (parser : Parser) : Option (Option TokenKind) :=
  parser.marks[parser.index + 1]?.map Mark.kind

def nextIs (parser : Parser) (kind : TokenKind) : Bool :=
  parser.next.kind == some kind

def isAtEnd (parser : Parser) : Bool :=
  parser.marks.isEmpty || parser.next.kind.isNone

/-- The position of the next mark, or none of a text where all have been passed. -/
def position (parser : Parser) : Position :=
  (parser.marks[parser.index]?.map Mark.position).getD ⟨0, 0⟩

/-- How many marks have not been passed, which is more than any loop takes turns. -/
def remaining (parser : Parser) : Nat :=
  parser.marks.size - parser.index

def advanced (parser : Parser) : Parser :=
  if parser.index < parser.marks.size then { parser with index := parser.index + 1 } else parser

def deeper (parser : Parser) : Parser :=
  { parser with depth := parser.depth + 1 }

def shallower (parser : Parser) : Parser :=
  { parser with depth := parser.depth - 1 }

/-- The parser with one term more. -/
def counted (parser : Parser) : Parser :=
  { parser with terms := parser.terms + 1 }

def uncounted (parser : Parser) : Parser :=
  { parser with terms := 0 }

def skipSeparators : Nat → Parser → Parser
  | 0, parser => parser
  | steps + 1, parser =>
      if !parser.marks.isEmpty && parser.nextIs .separator then skipSeparators steps parser.advanced
      else parser

def refuse {Phrase : Type} (cause : Cause) : Parsing Phrase := fun parser =>
  .error ⟨cause, parser.next.position⟩ parser

/-- The fault that the next mark is not what the grammar asks for. -/
def unexpected {Phrase : Type} (wanted : Wanted) : Parsing Phrase := do
  refuse (.unexpectedToken wanted (← get).next.kind)

def advance : Parsing Unit :=
  modify advanced

def expect (kind : TokenKind) : Parsing Unit := do
  if (← get).nextIs kind then advance else unexpected (.token kind)

def countTerm : Parsing Unit := do
  modify counted
  if maxTerms < (← get).terms then refuse .tooManyTerms

/-- Read what is nested one level deeper; what is behind it is not, even behind a fault. -/
def nested {Phrase : Type} (reading : Parsing Phrase) : Parsing Phrase := fun parser =>
  if maxNesting ≤ parser.depth then
    refuse .nestedTooDeeply parser
  else
    match reading parser.deeper with
    | .ok phrase behind => .ok phrase behind.shallower
    | .error fault behind => .error fault behind.shallower

def additive? : TokenKind → Option BinaryOperator
  | .plus => some .add
  | .minus => some .subtract
  | _ => none

def multiplicative? : TokenKind → Option BinaryOperator
  | .star => some .multiply
  | .slash => some .divide
  | .percent => some .remainder
  | _ => none

/-- Further operands of a chain that groups to the left. -/
def chain (operand : Parsing Expression) (operator? : TokenKind → Option BinaryOperator) :
    Nat → Expression → Parsing Expression
  | 0, left => return left
  | steps + 1, left => do
      let parser ← get
      match parser.next.kind.bind operator? with
      | none => return left
      | some operator => do
          countTerm
          advance
          let right ← operand
          chain operand operator? steps (.binary operator left right parser.position)

/-- Further arguments of a call, each behind a comma. -/
def moreArguments (expression : Parsing Expression) :
    Nat → Array Expression → Parsing (List Expression)
  | 0, before => return before.toList
  | steps + 1, before => do
      if (← get).nextIs .comma then
        advance
        let argument ← expression
        moreArguments expression steps (before.push argument)
      else
        return before.toList

/-- The readers of what is nested in a phrase. -/
structure Inner where
  primary : Parsing Expression
  factor : Parsing Expression
  expression : Parsing Expression
  arguments : Parsing (List Expression)

section

variable (inner : Inner)

/-- The call of a name, with the opening parenthesis next. -/
def call (name : String) (position : Position) : Parsing Expression := do
  expect .openParenthesis
  let arguments ← nested inner.arguments
  expect .closeParenthesis
  return .call name arguments position

/-- A number, a name, a call, or an expression in parentheses. -/
def primary : Parsing Expression := do
  let parser ← get
  match parser.next.kind with
  | some (.number value) => do
      countTerm
      advance
      return .literal value parser.position
  | some (.name text) => do
      countTerm
      advance
      if (← get).nextIs .openParenthesis then call inner text parser.position
      else return .reference text parser.position
  | some (.builtin function) => do
      countTerm
      advance
      if (← get).nextIs .openParenthesis then call inner function.name parser.position
      else unexpected (.openParenthesisAfter function)
  | some .openParenthesis => do
      advance
      let expression ← nested inner.expression
      expect .closeParenthesis
      return expression
  | _ => unexpected .expression

/-- A primary, or the negation of one. -/
def signed : Parsing Expression := do
  let parser ← get
  if parser.nextIs .minus then
    countTerm
    advance
    let operand ← nested inner.primary
    return .negate operand parser.position
  else
    primary inner

/-- A signed primary, or a power of one. -/
def factor : Parsing Expression := do
  let base ← signed inner
  let parser ← get
  if parser.nextIs .caret then
    countTerm
    advance
    let exponent ← nested inner.factor
    return .binary .power base exponent parser.position
  else
    return base

/-- Factors joined by multiplicative operators. -/
def term : Parsing Expression := do
  let first ← factor inner
  chain (factor inner) multiplicative? (← get).remaining first

/-- Terms joined by additive operators. -/
def expression : Parsing Expression := do
  let first ← term inner
  chain (term inner) additive? (← get).remaining first

/-- The arguments of a call, of which there is at least one. -/
def arguments : Parsing (List Expression) := do
  let first ← expression inner
  moreArguments (expression inner) (← get).remaining #[first]

end

namespace Inner

/-- The readers of what may have so many more levels nested in it, itself counted. -/
def ofLevels : Nat → Inner
  | 0 =>
      -- not called, as nothing is nested at the greatest depth
      ⟨refuse .nestedTooDeeply, refuse .nestedTooDeeply, refuse .nestedTooDeeply,
        refuse .nestedTooDeeply⟩
  | levels + 1 =>
      let inner := ofLevels levels
      ⟨Parser.primary inner, Parser.factor inner, Parser.expression inner,
        Parser.arguments inner⟩

def outermost : Inner :=
  ofLevels maxNesting

end Inner

/-- An assignment or a bare expression, without what has to be behind it. -/
def statementBody : Parsing Statement := do
  let parser ← get
  match parser.next.kind, parser.kindAfterNext? with
  | some (.name target), some (some .equals) => do
      advance
      advance
      let value ← expression .outermost
      return .assign target value parser.position
  | some (.builtin function), some (some .equals) => refuse (.assignedFunction function)
  | _, _ => do
      let value ← expression .outermost
      return .bare value

/-- A statement, behind which there has to be a separator or the end. -/
def statement : Parsing Statement := do
  modify uncounted
  let statement ← statementBody
  match (← get).next.kind with
  | none | some .separator => return statement
  | _ => unexpected .endOfStatement

end Parser

/-- A fault, and the statements before the one that has it. -/
structure ParseFailure where
  fault : Fault
  completed : List Statement

namespace Parser

/-- The statements behind those read before. -/
def statements : Nat → Array Statement → EStateM ParseFailure Parser (List Statement)
  | 0, before => return before.toList
  | steps + 1, before => fun parser =>
      let start := parser.skipSeparators parser.remaining
      if start.isAtEnd then
        .ok before.toList start
      else
        match statement start with
        | .ok statement behind => statements steps (before.push statement) behind
        | .error fault behind => .error ⟨fault, before.toList⟩ behind

/-- The statements of the tokens of a text, with its end among them. -/
def parse (marks : Array Mark) : Except ParseFailure (List Statement) :=
  match statements marks.size #[] (ofMarks marks) with
  | .ok statements _ => .ok statements
  | .error failure _ => .error failure

end Parser

def TokenStream.statements (stream : TokenStream) : Except ParseFailure (List Statement) :=
  Parser.parse stream.marks.toArray

end SignalPatch
