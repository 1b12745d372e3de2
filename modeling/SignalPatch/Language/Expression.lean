import SignalPatch.Language.Position
import SignalPatch.Sample.Basic

/-!
# Expressions and statements

The tree of a patch.  Every node carries the position at which a fault in it is
reported: the first character of a value, the operator of an operation, the
name of a call.
-/

namespace SignalPatch

/-- An operator between two operands. -/
inductive BinaryOperator where
  | add | subtract | multiply | divide | remainder | power
deriving DecidableEq

def BinaryOperator.symbol : BinaryOperator → String
  | add => "+"
  | subtract => "-"
  | multiply => "*"
  | divide => "/"
  | remainder => "%"
  | power => "^"

inductive Expression where
  | literal (value : Sample) (position : Position)
  | reference (name : String) (position : Position)
  | negate (operand : Expression) (position : Position)
  | binary (operator : BinaryOperator) (left right : Expression) (position : Position)
  | call (name : String) (arguments : List Expression) (position : Position)

inductive Statement where
  /-- Put the value of an expression into a variable. -/
  | assign (target : String) (value : Expression) (position : Position)
  /-- Evaluate an expression for the filters in it and drop its value. -/
  | bare (value : Expression)

namespace Expression

def position : Expression → Position
  | literal _ position | reference _ position | negate _ position
  | binary _ _ _ position | call _ _ position => position

mutual

/-- The number of terms: values, operations and calls. -/
def terms : Expression → Nat
  | literal .. | reference .. => 1
  | negate operand _ => operand.terms + 1
  | binary _ left right _ => left.terms + right.terms + 1
  | call _ arguments _ => termsOfAll arguments + 1

def termsOfAll : List Expression → Nat
  | [] => 0
  | expression :: others => expression.terms + termsOfAll others

end

end Expression

end SignalPatch
