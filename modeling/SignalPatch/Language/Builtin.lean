import SignalPatch.Program.Instruction

/-!
# Built-in functions

Each function that a patch can call has a name, the argument counts it accepts
and the instruction that computes it.
-/

namespace SignalPatch

/-- A function that patches can call. -/
inductive Builtin where
  | sin | cos | sin1 | cos1 | tan | tanh | sqrt | abs
  | pow | round | limit | mod1 | fir | biquad
deriving DecidableEq

/-- The argument counts that a function accepts, both bounds included. -/
structure Arity where
  least : Nat
  most : Nat
deriving DecidableEq

namespace Arity

def exactly (count : Nat) : Arity :=
  ⟨count, count⟩

def accepts (arity : Arity) (count : Nat) : Bool :=
  arity.least ≤ count && count ≤ arity.most

/-- The accepted counts in words. -/
def text (arity : Arity) : String :=
  if arity.least = arity.most then arity.least.repr
  else arity.least.repr ++ " to " ++ arity.most.repr

end Arity

/-- What computes a function: an opcode, or a filter with memory of its own. -/
inductive Lowering where
  | opcode (opcode : Opcode)
  | filter (kind : FilterKind)
deriving DecidableEq

/-- The argument counts with which a filter can run, its input sample included. -/
def FilterKind.arity : FilterKind → Arity
  | fir => ⟨2, maxTaps + 1⟩
  | biquad => .exactly 6

namespace Builtin

def all : List Builtin :=
  [sin, cos, sin1, cos1, tan, tanh, sqrt, abs, pow, round, limit, mod1, fir, biquad]

def name : Builtin → String
  | sin => "sin"
  | cos => "cos"
  | sin1 => "sin1"
  | cos1 => "cos1"
  | tan => "tan"
  | tanh => "tanh"
  | sqrt => "sqrt"
  | abs => "abs"
  | pow => "pow"
  | round => "round"
  | limit => "limit"
  | mod1 => "mod1"
  | fir => "fir"
  | biquad => "biquad"

def ofName? (name : String) : Option Builtin :=
  all.find? (fun function => function.name == name)

def lowering : Builtin → Lowering
  | sin => .opcode .sine
  | cos => .opcode .cosine
  | sin1 => .opcode .sineOfTurns
  | cos1 => .opcode .cosineOfTurns
  | tan => .opcode .tangent
  | tanh => .opcode .hyperbolicTangent
  | sqrt => .opcode .squareRoot
  | abs => .opcode .absolute
  | pow => .opcode .power
  | round => .opcode .round
  | limit => .opcode .limit
  | mod1 => .opcode .fraction
  | fir => .filter .fir
  | biquad => .filter .biquad

/-- The argument counts a function accepts: what its opcode or filter consumes. -/
def arity (function : Builtin) : Arity :=
  match function.lowering with
  | .opcode opcode => .exactly opcode.operands
  | .filter kind => kind.arity

end Builtin

end SignalPatch
