import SignalPatch.Language.Expression
import SignalPatch.Language.Fault
import SignalPatch.Program.Patch

/-!
# Compiling statements

Expressions become instructions in postfix order, so that every operation finds
its operands on top of the stack.  Names get slots and filter calls get sites in
the order in which they are reached.  A statement leaves the stack as it found
it: an assignment pops its value into a variable, a bare expression drops it.
-/

namespace SignalPatch

def BinaryOperator.opcode : BinaryOperator → Opcode
  | add => .add
  | subtract => .subtract
  | multiply => .multiply
  | divide => .divide
  | remainder => .remainder
  | power => .power

/-- A program under construction. -/
structure Assembly where
  code : Array Instruction
  table : VariableTable
  /-- How many filter calls have got a site. -/
  sites : Nat

namespace Assembly

/-- The assembly before the first statement. -/
def empty : Assembly :=
  ⟨#[], VariableTable.empty, 0⟩

def emit (assembly : Assembly) (instruction : Instruction) : Assembly :=
  ⟨assembly.code.push instruction, assembly.table, assembly.sites⟩

def intern (assembly : Assembly) (name : String) : Nat × Assembly :=
  let (slot, table) := assembly.table.intern name
  (slot, ⟨assembly.code, table, assembly.sites⟩)

/-- Add the instruction that computes a function of the arguments on the stack. -/
def emitCall (assembly : Assembly) (function : Builtin) (count : Nat) : Assembly :=
  match function.lowering with
  | .opcode opcode => assembly.emit (.operate opcode)
  | .filter kind =>
      ⟨assembly.code.push (.filter kind count assembly.sites), assembly.table,
        assembly.sites + 1⟩

/--
The function of a call.  A surplus argument is reported where it stands, a
missing one where the call stands.
-/
def resolveCall (name : String) (arguments : List Expression) (position : Position) :
    Except Fault Builtin :=
  match Builtin.ofName? name with
  | none => .error ⟨.unknownFunction name, position⟩
  | some function =>
      if function.arity.accepts arguments.length then .ok function
      else
        let surplus := arguments[function.arity.most]?
        .error ⟨.wrongArgumentCount name function.arity arguments.length,
          surplus.elim position Expression.position⟩

mutual

/-- Add the code that pushes the value of an expression. -/
def expression (source : Expression) (assembly : Assembly) : Except Fault Assembly :=
  match source with
  | .literal value _ => .ok (assembly.emit (.load value))
  | .reference name _ =>
      let (slot, assembly) := assembly.intern name
      .ok (assembly.emit (.read slot))
  | .negate operand _ => do
      let assembly ← expression operand assembly
      return assembly.emit (.operate .negate)
  | .binary operator left right _ => do
      let assembly ← expression left assembly
      let assembly ← expression right assembly
      return assembly.emit (.operate operator.opcode)
  | .call name arguments position => do
      let function ← resolveCall name arguments position
      let assembly ← expressions arguments assembly
      return assembly.emitCall function arguments.length

/-- Add the code that pushes the values of a list of expressions. -/
def expressions (sources : List Expression) (assembly : Assembly) : Except Fault Assembly :=
  match sources with
  | [] => .ok assembly
  | source :: others => do
      let assembly ← expression source assembly
      expressions others assembly

end

def statement (source : Statement) (assembly : Assembly) : Except Fault Assembly :=
  match source with
  | .assign target value position =>
      if Port.isReadOnly target then
        .error ⟨.assignedInput target, position⟩
      else do
        let (slot, assembly) := assembly.intern target
        let assembly ← expression value assembly
        return assembly.emit (.write slot)
  | .bare value => do
      let assembly ← expression value assembly
      return assembly.emit (.operate .discard)

def statements (sources : List Statement) (assembly : Assembly) : Except Fault Assembly :=
  match sources with
  | [] => .ok assembly
  | source :: others => do
      let assembly ← statement source assembly
      statements others assembly

/-- The patch of an assembly, whose sites are counted without a bound. -/
def patch (assembly : Assembly) : Patch :=
  ⟨.sized (· + 1) assembly.code.toList, assembly.table⟩

end Assembly

def Patch.ofStatements (statements : List Statement) : Except Fault Patch := do
  let assembly ← Assembly.statements statements .empty
  return assembly.patch

end SignalPatch
