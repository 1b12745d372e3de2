import SignalPatch.Machine.Filters
import SignalPatch.Machine.OperandStack
import SignalPatch.Program.Patch
import SignalPatch.Sample.Functions

/-!
# Executing a program

One pass over the instructions of a program changes the variables, the filter
memories and the operand stack.  An instruction that cannot be executed aborts
the pass; what was done before it stays done.
-/

namespace SignalPatch

/-- What instructions read and change. -/
structure Memory where
  table : VariableTable
  filters : FilterBank
  stack : OperandStack

/-- Why a pass is aborted. -/
inductive Guard where
  | stack (fault : StackFault)
  | filterArguments
deriving DecidableEq

def Guard.message : Guard → String
  | stack fault => fault.message
  | filterArguments => "filter call does not match its state slot"

/-- An aborted pass: what stopped it, and the memory as it was left. -/
structure Aborted where
  guard : Guard
  left : Memory

namespace Opcode

def apply (opcode : Opcode) (stack : OperandStack) : Except StackFailure OperandStack :=
  match opcode with
  | add => stack.combine (· + ·)
  | subtract => stack.combine (· - ·)
  | multiply => stack.combine (· * ·)
  | divide => stack.combine (· / ·)
  | remainder => stack.combine Sample.remainder
  | power => stack.combine Sample.power
  | round => stack.combine Sample.quantize
  | negate => stack.mapTop (fun value => -value)
  | sine => stack.mapTop Sample.sine
  | cosine => stack.mapTop Sample.cosine
  | sineOfTurns => stack.mapTop Sample.sineOfTurns
  | cosineOfTurns => stack.mapTop Sample.cosineOfTurns
  | tangent => stack.mapTop Sample.tangent
  | hyperbolicTangent => stack.mapTop Sample.hyperbolicTangent
  | squareRoot => stack.mapTop Sample.squareRoot
  | absolute => stack.mapTop Sample.abs
  | limit => stack.mapTop Sample.limit
  | fraction => stack.mapTop Sample.fractional
  | discard =>
      match stack.pop with
      | .error failure => .error failure
      | .ok (_, stack) => .ok stack

end Opcode

namespace Memory

def afterStack (table : VariableTable) (filters : FilterBank) :
    Except StackFailure OperandStack → Except Aborted Memory
  | .ok stack => .ok ⟨table, filters, stack⟩
  | .error failure => .error ⟨.stack failure.fault, ⟨table, filters, failure.left⟩⟩

def step : Memory → Instruction → Except Aborted Memory
  | ⟨table, filters, stack⟩, .operate opcode =>
      afterStack table filters (opcode.apply stack)
  | ⟨table, filters, stack⟩, .load value =>
      afterStack table filters (stack.push value)
  | ⟨table, filters, stack⟩, .read slot =>
      afterStack table filters (stack.push ((table.get? slot).getD 0))
  | ⟨table, filters, stack⟩, .write slot =>
      match stack.pop with
      | .error failure => .error ⟨.stack failure.fault, ⟨table, filters, failure.left⟩⟩
      | .ok (value, stack) => .ok ⟨table.set slot value, filters, stack⟩
  | ⟨table, filters, stack⟩, .filter kind count site =>
      match stack.popMany count with
      | .error failure => .error ⟨.stack failure.fault, ⟨table, filters, failure.left⟩⟩
      | .ok (arguments, stack) =>
          match filters.process site kind arguments with
          | (none, filters) => .error ⟨.filterArguments, ⟨table, filters, stack⟩⟩
          | (some output, filters) => afterStack table filters (stack.push output)

/-- Execute instructions in order until one aborts. -/
def run : List Instruction → Memory → Except Aborted Memory
  | [], memory => .ok memory
  | instruction :: others, memory =>
      match memory.step instruction with
      | .error aborted => .error aborted
      | .ok memory => run others memory

/-- Execute instructions in order on an empty stack. -/
def pass (code : List Instruction) : Memory → Except Aborted Memory
  | ⟨table, filters, stack⟩ => run code ⟨table, filters, stack.clear⟩

end Memory

end SignalPatch
