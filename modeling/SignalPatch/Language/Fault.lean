import SignalPatch.Language.Token

/-!
# Faults

A text that is no patch is refused with the first fault found in it.
-/

namespace SignalPatch

/-- The deepest nesting of parentheses, calls, negations and exponents. -/
def maxNesting : Nat :=
  4096

/-- The largest number of terms in one statement. -/
def maxTerms : Nat :=
  65536

/-- What the grammar asks for at a point. -/
inductive Wanted where
  | expression
  | endOfStatement
  | openParenthesisAfter (function : Builtin)
  | token (kind : TokenKind)
deriving DecidableEq

/-- What the grammar asks for in the words of a fault message. -/
def Wanted.text : Wanted → String
  | expression => "expression"
  | endOfStatement => "end of statement"
  | openParenthesisAfter function => "'(' after '" ++ function.name ++ "'"
  | token kind => kind.describe

/-- The stage at which a text is refused. -/
inductive Stage where
  | lexical | grammar | meaning
deriving DecidableEq

def Stage.title : Stage → String
  | lexical => "LexError"
  | grammar => "ParseError"
  | meaning => "CompileError"

/-- The reason why a text is refused. -/
inductive Cause where
  | unexpectedCharacter (character : Char)
  | missingExponentDigits (numeral : String)
  | malformedNumber (numeral : String)
  | unexpectedToken (wanted : Wanted) (found : Option TokenKind)
  | assignedFunction (function : Builtin)
  | nestedTooDeeply
  | tooManyTerms
  | assignedInput (name : String)
  | unknownFunction (name : String)
  | wrongArgumentCount (name : String) (arity : Arity) (count : Nat)
deriving DecidableEq

namespace Cause

def stage : Cause → Stage
  | unexpectedCharacter _ | missingExponentDigits _ | malformedNumber _ => .lexical
  | unexpectedToken .. | assignedFunction _ | nestedTooDeeply | tooManyTerms => .grammar
  | assignedInput _ | unknownFunction _ | wrongArgumentCount .. => .meaning

def message : Cause → String
  | unexpectedCharacter character => "unexpected character: '" ++ character.toString ++ "'"
  | missingExponentDigits numeral =>
      "malformed number: '" ++ numeral ++ "' has no exponent digits"
  | malformedNumber numeral => "malformed number: '" ++ numeral ++ "'"
  | unexpectedToken wanted found =>
      "expected " ++ wanted.text ++ ", got " ++ TokenKind.describeNext found
  | assignedFunction function =>
      "cannot assign to built-in function '" ++ function.name ++ "'"
  | nestedTooDeeply => "expression nested too deeply (limit " ++ maxNesting.repr ++ ")"
  | tooManyTerms => "statement too large (limit " ++ maxTerms.repr ++ " terms)"
  | assignedInput name =>
      "'" ++ name ++ "' is driven from outside the patch and cannot be assigned"
  | unknownFunction name => "unknown function '" ++ name ++ "'"
  | wrongArgumentCount name arity count =>
      "function '" ++ name ++ "' expects " ++ arity.text ++ " argument(s), got " ++ count.repr

end Cause

/-- A cause and the position at which it was found. -/
structure Fault where
  cause : Cause
  position : Position
deriving DecidableEq

/-- A fault as one line: its position, its stage and its cause. -/
def Fault.text (fault : Fault) : String :=
  "[" ++ fault.position.line.repr ++ ":" ++ fault.position.column.repr ++ "] " ++
    fault.cause.stage.title ++ ": " ++ fault.cause.message

end SignalPatch
