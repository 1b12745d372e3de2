import SignalPatch.Frame
import SignalPatch.Program.Variables

/-!
# Ports

Ports are the variables through which a patch meets the outside: two input
channels and their mean, two output channels or one for both, and four
sliders.  They are ordinary slots with reserved names, looked up once for each
loaded patch.
-/

namespace SignalPatch

namespace Port

def input : String := "in"

def inputLeft : String := "inl"

def inputRight : String := "inr"

def output : String := "out"

def outputLeft : String := "outl"

def outputRight : String := "outr"

abbrev sliderCount : Nat := 4

/-- The sliders, which are set from outside. -/
def sliders : Vector String sliderCount :=
  #v["slider1", "slider2", "slider3", "slider4"]

/-- Whether a name is written from outside, so that a patch may read it only. -/
def isReadOnly (name : String) : Bool :=
  name == input || name == inputLeft || name == inputRight || sliders.contains name

def isReserved (name : String) : Bool :=
  isReadOnly name || name == output || name == outputLeft || name == outputRight

end Port

/-- The slots of the ports that a patch mentions. -/
structure Ports where
  input : Option Nat
  inputLeft : Option Nat
  inputRight : Option Nat
  output : Option Nat
  outputLeft : Option Nat
  outputRight : Option Nat
  sliders : Vector (Option Nat) Port.sliderCount
deriving DecidableEq

namespace Ports

def unbound : Ports :=
  ⟨none, none, none, none, none, none, Vector.replicate _ none⟩

def resolve (table : VariableTable) : Ports where
  input := table.find? Port.input
  inputLeft := table.find? Port.inputLeft
  inputRight := table.find? Port.inputRight
  output := table.find? Port.output
  outputLeft := table.find? Port.outputLeft
  outputRight := table.find? Port.outputRight
  sliders := Port.sliders.map table.find?

/-- Put a value into a port if it is bound. -/
def assign (table : VariableTable) (port : Option Nat) (value : Sample) : VariableTable :=
  match port with
  | some slot => table.set slot value
  | none => table

/-- The value of a port, which is zero if it is not bound. -/
def fetch (table : VariableTable) (port : Option Nat) : Sample :=
  ((port.bind table.get?).getD 0)

def bindInputs (ports : Ports) (table : VariableTable) (frame : Frame) : VariableTable :=
  let table := assign table ports.input frame.mean
  let table := assign table ports.inputLeft frame.left
  assign table ports.inputRight frame.right

/-- The output frame: the common output if it is bound, else the channel outputs. -/
def readOutputs (ports : Ports) (table : VariableTable) : Frame :=
  match ports.output with
  | some slot => Frame.mono ((table.get? slot).getD 0)
  | none => ⟨fetch table ports.outputLeft, fetch table ports.outputRight⟩

end Ports

end SignalPatch
