import Mathlib.Logic.Function.Basic
import SignalPatch.Language.Expression
import SignalPatch.Machine.Filters
import SignalPatch.Program.Ports
import SignalPatch.Sample.Functions
import SignalPatch.Proofs.Language.Emission

/-!
# The meaning of a patch

The meaning of statements is given by recursion over their trees.  Variables are
known by their names, and each filter call of the text has a memory of its own,
known by the place of the call.  There are no slots, sites or stacks.
-/

namespace SignalPatch

/-- The place of an expression in a list of statements: the way to it, innermost step first. -/
abbrev Place := List Nat

abbrev FilterMemories := Place → FilterMemory

def BinaryOperator.compute : BinaryOperator → Sample → Sample → Sample
  | add, left, right => left + right
  | subtract, left, right => left - right
  | multiply, left, right => left * right
  | divide, left, right => left / right
  | remainder, left, right => left.remainder right
  | power, left, right => left.power right

/-- The value of a function, and the memory of the call behind it. -/
def Builtin.compute (function : Builtin) (arguments : List Sample) (memory : FilterMemory) :
    Sample × FilterMemory :=
  match function, arguments with
  | sin, [value] => (value.sine, memory)
  | cos, [value] => (value.cosine, memory)
  | sin1, [value] => (value.sineOfTurns, memory)
  | cos1, [value] => (value.cosineOfTurns, memory)
  | tan, [value] => (value.tangent, memory)
  | tanh, [value] => (value.hyperbolicTangent, memory)
  | sqrt, [value] => (value.squareRoot, memory)
  | abs, [value] => (value.abs, memory)
  | pow, [base, exponent] => (base.power exponent, memory)
  | round, [value, step] => (value.quantize step, memory)
  | limit, [value] => (value.limit, memory)
  | mod1, [value] => (value.fractional, memory)
  | fir, input :: taps => memory.fir input taps
  | biquad, [input, b0, b1, b2, a1, a2] => memory.biquad input ⟨b0, b1, b2, a1, a2⟩
  | _, _ => (0, memory)

/-- The value of the call at a place; a name that no function has stands for zero. -/
def Builtin.computeAt (place : Place) (name : String) (arguments : List Sample)
    (memories : FilterMemories) : Sample × FilterMemories :=
  match ofName? name with
  | none => (0, memories)
  | some function =>
      let (value, memory) := function.compute arguments (memories place)
      (value, Function.update memories place memory)

namespace Expression

variable (value : String → Sample)

mutual

/-- The value of the expression at a place, and the memories of all calls behind it. -/
def evaluate (place : Place) : Expression → FilterMemories → Sample × FilterMemories
  | literal constant _, memories => (constant, memories)
  | reference name _, memories => (value name, memories)
  | negate operand _, memories =>
      let (result, memories) := evaluate (0 :: place) operand memories
      (-result, memories)
  | binary operator left right _, memories =>
      let (first, memories) := evaluate (0 :: place) left memories
      let (second, memories) := evaluate (1 :: place) right memories
      (operator.compute first second, memories)
  | call name arguments _, memories =>
      let (results, memories) := evaluateAll place 0 arguments memories
      Builtin.computeAt place name results memories

def evaluateAll (place : Place) (index : Nat) :
    List Expression → FilterMemories → List Sample × FilterMemories
  | [], memories => ([], memories)
  | argument :: others, memories =>
      let (result, memories) := evaluate (index :: place) argument memories
      let (results, memories) := evaluateAll place (index + 1) others memories
      (result :: results, memories)

end

end Expression

/-- What a patch remembers from one tick to the next. -/
structure Environment where
  value : String → Sample
  memories : FilterMemories

namespace Environment

def assign (environment : Environment) (name : String) (value : Sample) : Environment :=
  { environment with value := Function.update environment.value name value }

def execute (environment : Environment) (index : Nat) : Statement → Environment
  | .assign target source _ =>
      let (result, memories) := source.evaluate environment.value [index] environment.memories
      assign ⟨environment.value, memories⟩ target result
  | .bare source =>
      let (_, memories) := source.evaluate environment.value [index] environment.memories
      ⟨environment.value, memories⟩

/-- Execute statements from top to bottom, the first of which has an index. -/
def executeAll (environment : Environment) (index : Nat) : List Statement → Environment
  | [] => environment
  | statement :: others => (environment.execute index statement).executeAll (index + 1) others

def assignIf (environment : Environment) (mentioned : List String) (name : String)
    (value : Sample) : Environment :=
  if name ∈ mentioned then environment.assign name value else environment

/-- Bind an input frame to the input ports that are mentioned. -/
def bind (environment : Environment) (mentioned : List String) (frame : Frame) : Environment :=
  ((environment.assignIf mentioned Port.input ((frame.left + frame.right) / 2)).assignIf mentioned
    Port.inputLeft frame.left).assignIf mentioned Port.inputRight frame.right

def valueIf (environment : Environment) (mentioned : List String) (name : String) : Sample :=
  if name ∈ mentioned then environment.value name else 0

/-- The output frame: the common output if it is mentioned, else the channel outputs. -/
def output (environment : Environment) (mentioned : List String) : Frame :=
  if Port.output ∈ mentioned then .mono (environment.value Port.output)
  else ⟨environment.valueIf mentioned Port.outputLeft,
    environment.valueIf mentioned Port.outputRight⟩

def tick (environment : Environment) (statements : List Statement) (frame : Frame) :
    Environment :=
  (environment.bind (Statement.mentionsOfAll statements) frame).executeAll 0 statements

end Environment

end SignalPatch
