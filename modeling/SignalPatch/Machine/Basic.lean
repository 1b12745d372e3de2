import SignalPatch.Config.Engine
import SignalPatch.Machine.Execution
import SignalPatch.Telemetry

/-!
# The machine

The machine turns input frames into output frames, one tick for each.  It is
silent while it is stopped or has no program, and for a tick that the runtime
guard aborts.
-/

namespace SignalPatch

/-- Whether a machine computes frames. -/
inductive RunState where
  | stopped | running
deriving DecidableEq

/-- The state of a machine. -/
structure Machine where
  runState : RunState
  program : Program
  ports : Ports
  memory : Memory
  sources : Sources
  telemetry : Telemetry
  /-- The input peaks, which fall with every block. -/
  levels : Frame
  /--
  How many ticks were aborted.  The counter has 64 bits and no bound here: at a million
  ticks a second it would take half a million years to run out.
  -/
  guardTrips : Nat

namespace Machine

/-- The factor by which input peaks fall with every block. -/
def levelDecay : Sample :=
  0.9

/-- A stopped machine without a program. -/
def create (config : EngineConfig) : Machine where
  runState := .stopped
  program := .empty
  ports := .unbound
  memory := ⟨.empty, .withSites 0, .withCapacity (max config.stackCapacity 1)⟩
  sources := (Sources.ofSettings config.sampleRate config.sources).select config.source
  telemetry := .withCapacity config.telemetryCapacity
  levels := .silence
  guardTrips := 0

def isIdle (machine : Machine) : Bool :=
  machine.runState == .stopped || machine.program.isEmpty

/-- One frame, where the sound card delivers `live`. -/
def tick (machine : Machine) (live : Frame) : Frame × Machine :=
  if machine.isIdle then
    (.silence, { machine with telemetry := machine.telemetry.push .silence })
  else
    let ⟨runState, program, ports, memory, sources, telemetry, levels, guardTrips⟩ := machine
    let (input, sources) := sources.next live
    let levels := levels.raise input
    let ⟨table, filters, stack⟩ := memory
    let table := ports.bindInputs table input
    match Memory.pass program.instructions ⟨table, filters, stack⟩ with
    | .ok memory =>
        let output := ports.readOutputs memory.table
        (output, ⟨runState, program, ports, memory, sources, telemetry.push output, levels,
          guardTrips⟩)
    | .error ⟨_, memory⟩ =>
        (.silence, ⟨runState, program, ports, memory, sources, telemetry.push .silence, levels,
          guardTrips + 1⟩)

/-- The frame at an index of interleaved samples, or silence if it is not complete. -/
def frameAt (samples : Array Sample) (index : Nat) : Frame :=
  match samples[2 * index]?, samples[2 * index + 1]? with
  | some left, some right => ⟨left, right⟩
  | _, _ => .silence

/-- Write a frame over the cells at its place; only the left one of the last may be there. -/
def writeFrame (output : Array Sample) (index : Nat) (frame : Frame) : Array Sample :=
  (output.setIfInBounds (2 * index) frame.left).setIfInBounds (2 * index + 1) frame.right

/-- Write so many frames over their cells, one tick for each frame from an index on. -/
def fill (input : Array Sample) : Nat → Nat → Array Sample → Machine → Array Sample × Machine
  | 0, _, output, machine => (output, machine)
  | frames + 1, index, output, machine =>
      let (frame, machine) := machine.tick (frameAt input index)
      fill input frames (index + 1) (writeFrame output index frame) machine

/-- Let the input peaks fall once. -/
def decayLevels (machine : Machine) : Machine :=
  { machine with levels := machine.levels.map (· * levelDecay) }

/-- One block of interleaved samples, written over a buffer. -/
def processInto (machine : Machine) (input output : Array Sample) : Array Sample × Machine :=
  fill input ((output.size + 1) / 2) 0 output machine.decayLevels

/-- One block of interleaved samples, `length` of them, in a buffer of zeros. -/
def processBlock (machine : Machine) (input : Array Sample) (length : Nat) :
    Array Sample × Machine :=
  machine.processInto input (Array.replicate length 0)

/-- Put in a patch: its program, variables and ports, and fresh filter memories. -/
def load (machine : Machine) (patch : Patch) : Machine :=
  { machine with
    program := patch.program
    ports := .resolve patch.table
    memory := ⟨patch.table, .withSites patch.program.filterSites, machine.memory.stack.clear⟩
    levels := .silence }

/-- Set a slider, if there is such a slider and the patch mentions it. -/
def setSlider (machine : Machine) (index : Nat) (value : Sample) : Machine :=
  match machine.ports.sliders[index]? with
  | some (some slot) =>
      { machine with
        memory := { machine.memory with table := machine.memory.table.set slot value } }
  | _ => machine

def setSource (machine : Machine) (kind : SourceKind) : Machine :=
  { machine with sources := machine.sources.select kind }

def setFileFrames (machine : Machine) (frames : Array Frame) : Machine :=
  { machine with sources := machine.sources.setFileFrames frames }

/-- Run or stop, and forget the input peaks. -/
def setRunState (machine : Machine) (runState : RunState) : Machine :=
  { machine with runState, levels := .silence }

def table (machine : Machine) : VariableTable :=
  machine.memory.table

/-- The listing of the loaded program. -/
def disassemble (machine : Machine) : String :=
  machine.program.disassemble machine.table

/-- Make the change that a control message asks for. -/
def applyEvent (machine : Machine) : ControlEvent → Machine
  | .setSlider index value => machine.setSlider index value
  | .setSource kind => machine.setSource kind

end Machine

end SignalPatch
