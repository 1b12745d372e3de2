import SignalPatch.Sample.Basic

/-!
# The operand stack

The stack has room for a fixed number of values.  They stand in cells, which are
laid out when they are first needed; a value that is taken off the stack stays in
its cell until another one is put there.  A failed operation reports its fault
together with the stack as it leaves it: all operations leave it unchanged but the
one that takes a pair, which takes a lone value before it fails.
-/

namespace SignalPatch

/-- A stack of at most so many values, which stand in its first cells, the last of them on top. -/
structure OperandStack where
  capacity : Nat
  cells : Array Sample
  /-- How many cells hold a value of the stack; the others are left over. -/
  size : Nat
  size_le : size ≤ cells.size
  cells_le : cells.size ≤ capacity

/-- Why a stack operation fails. -/
inductive StackFault where
  | overflow | underflow
deriving DecidableEq

def StackFault.message : StackFault → String
  | overflow => "operand stack overflow"
  | underflow => "operand stack underflow"

/-- A failed operation: the fault, and the stack that is left. -/
structure StackFailure where
  fault : StackFault
  left : OperandStack

namespace OperandStack

def withCapacity (capacity : Nat) : OperandStack :=
  ⟨capacity, #[], 0, Nat.le_refl _, Nat.zero_le _⟩

def isEmpty (stack : OperandStack) : Bool :=
  stack.size == 0

/-- The values on a stack, the lowest first. -/
def toList (stack : OperandStack) : List Sample :=
  stack.cells.toList.take stack.size

/-- Take all values off the stack. -/
def clear : OperandStack → OperandStack
  | ⟨capacity, cells, _, _, cells_le⟩ => ⟨capacity, cells, 0, Nat.zero_le _, cells_le⟩

/-- Put a value into a cell, which may be the next one to lay out. -/
def put (cells : Array Sample) (index : Nat) (value : Sample) : Array Sample :=
  if inside : index < cells.size then cells.set index value else cells.push value

theorem size_put {cells : Array Sample} {index : Nat} (reached : index ≤ cells.size)
    (value : Sample) : (put cells index value).size = max cells.size (index + 1) := by
  unfold put
  split
  · rw [Array.size_set]
    omega
  · rw [Array.size_push]
    omega

/-- Put a value on top. -/
def push : OperandStack → Sample → Except StackFailure OperandStack
  | ⟨capacity, cells, size, size_le, cells_le⟩, value =>
      if room : size < capacity then
        .ok ⟨capacity, put cells size value, size + 1, by rw [size_put size_le]; omega,
          by rw [size_put size_le]; omega⟩
      else
        .error ⟨.overflow, ⟨capacity, cells, size, size_le, cells_le⟩⟩

def pop : OperandStack → Except StackFailure (Sample × OperandStack)
  | ⟨capacity, cells, size, size_le, cells_le⟩ =>
      if nonempty : 0 < size then
        .ok (cells[size - 1], ⟨capacity, cells, size - 1, by omega, cells_le⟩)
      else
        .error ⟨.underflow, ⟨capacity, cells, size, size_le, cells_le⟩⟩

def top : OperandStack → Except StackFailure Sample
  | ⟨capacity, cells, size, size_le, cells_le⟩ =>
      if nonempty : 0 < size then
        .ok cells[size - 1]
      else
        .error ⟨.underflow, ⟨capacity, cells, size, size_le, cells_le⟩⟩

/-- Replace the value on top by a function of it. -/
def mapTop (change : Sample → Sample) : OperandStack → Except StackFailure OperandStack
  | ⟨capacity, cells, size, size_le, cells_le⟩ =>
      if nonempty : 0 < size then
        .ok ⟨capacity, cells.set (size - 1) (change cells[size - 1]), size,
          by rw [Array.size_set]; exact size_le, by rw [Array.size_set]; exact cells_le⟩
      else
        .error ⟨.underflow, ⟨capacity, cells, size, size_le, cells_le⟩⟩

def setTop (stack : OperandStack) (value : Sample) : Except StackFailure OperandStack :=
  stack.mapTop (fun _ => value)

/-- Take two values, in the order in which they were pushed. -/
def popPair (stack : OperandStack) :
    Except StackFailure ((Sample × Sample) × OperandStack) :=
  match stack.pop with
  | .error failure => .error failure
  | .ok (second, stack) =>
      match stack.pop with
      | .error failure => .error failure
      | .ok (first, stack) => .ok ((first, second), stack)

/-- Take `count` values, in the order in which they were pushed. -/
def popMany : OperandStack → Nat → Except StackFailure (List Sample × OperandStack)
  | ⟨capacity, cells, size, size_le, cells_le⟩, count =>
      if count ≤ size then
        .ok ((cells.extract (size - count) size).toList,
          ⟨capacity, cells, size - count, by omega, cells_le⟩)
      else
        .error ⟨.underflow, ⟨capacity, cells, size, size_le, cells_le⟩⟩

/-- Replace two values by a function of them. -/
def combine (operation : Sample → Sample → Sample) (stack : OperandStack) :
    Except StackFailure OperandStack :=
  match stack.popPair with
  | .error failure => .error failure
  | .ok ((first, second), stack) => stack.push (operation first second)

end OperandStack

end SignalPatch
