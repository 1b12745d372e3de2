import SignalPatch.Proofs.Language.Derivation
import SignalPatch.Proofs.Language.Lexemes

/-!
# Printing trees

The text of a tree has parentheses only around what the grammar would group in
another way without them: a part that is looser than the place where it stands
asks for.  How a number is written is up to a given writer of numerals.
-/

namespace SignalPatch

def Level.looseness : Level → Nat
  | primary => 0
  | signed => 1
  | factor => 2
  | term => 3
  | expression => 4

/-- A text of an inner level where an outer level is asked for. -/
def Level.enclosed (outer inner : Level) (text : List Char) : List Char :=
  if inner.looseness ≤ outer.looseness then text else '(' :: (text ++ [')'])

def Level.enclosedNesting (outer inner : Level) (nesting : Nat) : Nat :=
  if inner.looseness ≤ outer.looseness then nesting else nesting + 1

namespace BinaryOperator

def level : BinaryOperator → Level
  | power => .factor
  | multiply | divide | remainder => .term
  | add | subtract => .expression

/-- The level asked for on the left: chains group to the left, and a power has no power there. -/
def leftLevel : BinaryOperator → Level
  | power => .signed
  | operator => operator.level

def rightLevel : BinaryOperator → Level
  | power | multiply | divide | remainder => .factor
  | add | subtract => .term

/-- An exponent is nested one level deeper. -/
def rightNesting (nesting : Nat) : BinaryOperator → Nat
  | power => nesting + 1
  | _ => nesting

end BinaryOperator

namespace Expression

/-- The level of an expression that is written without parentheses around it. -/
def level : Expression → Level
  | literal .. | reference .. | call .. => .primary
  | negate .. => .signed
  | binary operator .. => operator.level

mutual

/-- How many parentheses, calls, negations and exponents enclose a point of the text at most. -/
def nesting : Expression → Nat
  | literal .. | reference .. => 0
  | negate operand _ => Level.primary.enclosedNesting operand.level operand.nesting + 1
  | binary operator left right _ =>
      max (operator.leftLevel.enclosedNesting left.level left.nesting)
        (operator.rightNesting (operator.rightLevel.enclosedNesting right.level right.nesting))
  | call _ arguments _ => nestingOfAll arguments + 1

def nestingOfAll : List Expression → Nat
  | [] => 0
  | argument :: others => max argument.nesting (nestingOfAll others)

end

end Expression

def IsIdentifier (name : String) : Prop :=
  IsWord name.toList []

/-- Whether a name is that of a variable, and not of a function. -/
structure IsVariableName (name : String) : Prop where
  word : IsIdentifier name
  noFunction : ∀ function : Builtin, function.name ≠ name

/-- Whether a numeral is read as a sample. -/
structure Numeral.Writes (numeral : Numeral) (value : Sample) : Prop where
  complete : numeral.Complete
  toSample_eq : numeral.value.toSample = value

inductive Joint where
  | newline | semicolon

def Joint.character : Joint → Char
  | newline => '\n'
  | semicolon => ';'

variable (write : Sample → Numeral) (joint : Nat → Joint)

namespace Expression

mutual

def text : Expression → List Char
  | literal value _ => (write value).source
  | reference name _ => name.toList
  | negate operand _ => '-' :: Level.primary.enclosed operand.level operand.text
  | binary operator left right _ =>
      operator.leftLevel.enclosed left.level left.text ++
        (' ' :: operator.symbol.toList ++
          ' ' :: operator.rightLevel.enclosed right.level right.text)
  | call name arguments _ =>
      name.toList ++ '(' :: ([','].intercalate (textsOfAll arguments) ++ [')'])

def textsOfAll : List Expression → List (List Char)
  | [] => []
  | argument :: others => argument.text :: textsOfAll others

end

mutual

/-- What there is a text of: its numbers can be written, and its names can be read. -/
def IsPrintable : Expression → Prop
  | literal value _ => (write value).Writes value
  | reference name _ => IsVariableName name
  | negate operand _ => operand.IsPrintable
  | binary _ left right _ => left.IsPrintable ∧ right.IsPrintable
  | call name arguments _ =>
      (IsIdentifier name ∨ ∃ function : Builtin, function.name = name) ∧ arguments ≠ [] ∧
        AllPrintable arguments

def AllPrintable : List Expression → Prop
  | [] => True
  | argument :: others => argument.IsPrintable ∧ AllPrintable others

end

end Expression

namespace Statement

def text : Statement → List Char
  | assign target value _ => target.toList ++ ' ' :: '=' :: ' ' :: value.text write
  | bare value => value.text write

def IsPrintable : Statement → Prop
  | assign target value _ => IsVariableName target ∧ value.IsPrintable write
  | bare value => value.IsPrintable write

/-- Whether the text of a statement keeps the limits on terms and nesting. -/
def KeepsLimits : Statement → Prop
  | assign _ value _ | bare value => value.terms ≤ maxTerms ∧ value.nesting ≤ maxNesting

/-- Statements one behind the other.  How two of them are joined is told by how many follow. -/
def textOfAll : List Statement → List Char
  | [] => []
  | [last] => last.text write
  | statement :: next :: others =>
      statement.text write ++ (joint others.length).character :: textOfAll (next :: others)

end Statement

def printed (statements : List Statement) : String :=
  String.ofList (Statement.textOfAll write joint statements)

end SignalPatch
