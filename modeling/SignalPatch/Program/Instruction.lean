import SignalPatch.Decimal.Shortest

/-!
# Instructions

A compiled patch is a straight line of instructions for a stack machine.  There
are no jumps: one pass over the line computes one frame.
-/

namespace SignalPatch

/-- A stack operation whose operands all come from the stack. -/
inductive Opcode where
  | add | subtract | multiply | divide | remainder | power | round
  | negate | sine | cosine | sineOfTurns | cosineOfTurns | tangent | hyperbolicTangent
  | squareRoot | absolute | limit | fraction
  | discard
deriving DecidableEq

namespace Opcode

/-- The word for an opcode in a program listing. -/
def mnemonic : Opcode → String
  | add => "ADD"
  | subtract => "SUB"
  | multiply => "MUL"
  | divide => "DIV"
  | remainder => "REM"
  | power => "POW"
  | round => "ROUND"
  | negate => "NEG"
  | sine => "SIN"
  | cosine => "COS"
  | sineOfTurns => "SIN1"
  | cosineOfTurns => "COS1"
  | tangent => "TAN"
  | hyperbolicTangent => "TANH"
  | squareRoot => "SQRT"
  | absolute => "ABS"
  | limit => "LIMIT"
  | fraction => "MOD1"
  | discard => "POP"

def operands : Opcode → Nat
  | add | subtract | multiply | divide | remainder | power | round => 2
  | _ => 1

end Opcode

/-- The longest kernel of a finite impulse response. -/
abbrev maxTaps : Nat := 64

/-- The two kinds of filter a patch can call. -/
inductive FilterKind where
  /-- A finite impulse response: a weighted sum of the latest inputs. -/
  | fir
  /-- A second-order section in direct form I. -/
  | biquad
deriving DecidableEq

/-- The word for a filter in a program listing. -/
def FilterKind.mnemonic : FilterKind → String
  | fir => "FIR"
  | biquad => "BIQUAD"

/-- One step of a compiled patch. -/
inductive Instruction where
  /-- Replace the operands of an opcode by its result. -/
  | operate (opcode : Opcode)
  | read (slot : Nat)
  /-- Pop a value into a variable. -/
  | write (slot : Nat)
  | load (value : Sample)
  /-- Pop the arguments of a filter call and push the output of the filter at `site`. -/
  | filter (kind : FilterKind) (arguments site : Nat)
deriving DecidableEq

namespace Instruction

/-- The text of an instruction by itself, with variables as slot numbers. -/
def text : Instruction → String
  | operate opcode => opcode.mnemonic
  | read slot => "READ #" ++ slot.repr
  | write slot => "WRITE #" ++ slot.repr
  | load value => "LOAD " ++ value.text
  | filter kind arguments site =>
      kind.mnemonic ++ " " ++ arguments.repr ++ " @" ++ site.repr

/-- The site of a filter call. -/
def site? : Instruction → Option Nat
  | filter _ _ site => some site
  | operate _ | read _ | write _ | load _ => none

end Instruction

/-- A straight line of instructions. -/
structure Program where
  instructions : List Instruction
  /-- The number of filter sites that are made for them. -/
  filterSites : Nat
deriving DecidableEq

namespace Program

def empty : Program :=
  ⟨[], 0⟩

/--
A program of given instructions, with as many filter sites as a site that one of them
names needs at most.
-/
def sized (needed : Nat → Nat) (instructions : List Instruction) : Program :=
  ⟨instructions, ((instructions.filterMap Instruction.site?).map needed).foldl max 0⟩

/-- A program of given instructions, whose sites are counted in 64 bits. -/
def ofInstructions (instructions : List Instruction) : Program :=
  sized (fun site => (site + 1) % 0x10000000000000000) instructions

def size (program : Program) : Nat :=
  program.instructions.length

def isEmpty (program : Program) : Bool :=
  program.instructions.isEmpty

end Program

end SignalPatch
