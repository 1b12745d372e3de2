import SignalPatch.Program.Instruction
import SignalPatch.Program.Ports

/-!
# Patches

A patch is what the machine loads: a program together with the variables whose
slots it uses.
-/

namespace SignalPatch

/-- A program and its variables. -/
structure Patch where
  program : Program
  table : VariableTable
deriving DecidableEq

namespace Program

/-- A number with zeros in front up to four digits. -/
def lineNumber (index : Nat) : String :=
  let digits := index.repr
  "".pushn '0' (4 - digits.length) ++ digits

def operationText (table : VariableTable) : Instruction → String
  | .read slot => "READ " ++ table.nameOrUnknown slot
  | .write slot => "WRITE " ++ table.nameOrUnknown slot
  | instruction => instruction.text

def listing (program : Program) (table : VariableTable) : List String :=
  program.instructions.mapIdx
    (fun index instruction => lineNumber index ++ " " ++ operationText table instruction)

/-- The listing as text, each line ended by a newline. -/
def disassemble (program : Program) (table : VariableTable) : String :=
  (program.listing table).foldl (fun text line => text ++ line ++ "\n") ""

end Program

end SignalPatch
