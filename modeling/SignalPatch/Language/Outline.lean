import SignalPatch.Decimal.Shortest
import SignalPatch.Language.Expression

/-!
# Outlines

The outline of a patch has one line for each node of its tree, the parts of a
node below it and indented by two more blanks.
-/

namespace SignalPatch

/-- A line of an outline, ended by a newline. -/
def outlineLine (depth : Nat) (text : String) : String :=
  "".pushn ' ' (2 * depth) ++ text ++ "\n"

namespace Expression

mutual

def outline (expression : Expression) (depth : Nat) (before : String) : String :=
  match expression with
  | literal value _ => before ++ outlineLine depth ("Literal " ++ value.text)
  | reference name _ => before ++ outlineLine depth ("Variable " ++ name)
  | negate operand _ => operand.outline (depth + 1) (before ++ outlineLine depth "Negate")
  | binary operator left right _ =>
      let header := outlineLine depth ("Binary '" ++ operator.symbol ++ "'")
      right.outline (depth + 1) (left.outline (depth + 1) (before ++ header))
  | call name arguments _ =>
      outlineAll arguments (depth + 1) (before ++ outlineLine depth ("Call " ++ name))

def outlineAll (expressions : List Expression) (depth : Nat) (before : String) : String :=
  match expressions with
  | [] => before
  | expression :: others => outlineAll others depth (expression.outline depth before)

end

mutual

/-- The positions of the nodes of an expression in outline order, behind those before. -/
def positions (expression : Expression) (before : Array Position) : Array Position :=
  match expression with
  | literal _ position | reference _ position => before.push position
  | negate operand position => operand.positions (before.push position)
  | binary _ left right position => right.positions (left.positions (before.push position))
  | call _ arguments position => positionsOfAll arguments (before.push position)

/-- The positions of the nodes of a list of expressions, behind those before. -/
def positionsOfAll (expressions : List Expression) (before : Array Position) :
    Array Position :=
  match expressions with
  | [] => before
  | expression :: others => positionsOfAll others (expression.positions before)

end

end Expression

namespace Statement

def outline (statement : Statement) (before : String) : String :=
  match statement with
  | assign target value _ => value.outline 1 (before ++ outlineLine 0 ("Assign " ++ target))
  | bare value => value.outline 1 (before ++ outlineLine 0 "Expression")

/-- The positions of an assignment's target and of its nodes, behind those before. -/
def positions (statement : Statement) (before : Array Position) : Array Position :=
  match statement with
  | assign _ value position => value.positions (before.push position)
  | bare value => value.positions before

end Statement

def outline (statements : List Statement) : String :=
  statements.foldl (fun before statement => statement.outline before) ""

end SignalPatch
