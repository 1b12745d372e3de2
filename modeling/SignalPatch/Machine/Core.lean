import SignalPatch.Machine.Basic

/-!
# Sharing a machine

The audio side and the control side share a machine under a lock.  The audio
side never waits: while someone holds the lock, what it asks for is silent and
changes nothing.  The control side waits until the lock is free.  A holder that
dies poisons the lock, which stops nobody from taking it.
-/

namespace SignalPatch

/-- A machine and its lock. -/
structure Core where
  machine : Machine
  /-- Whether someone holds the lock. -/
  held : Bool
  /-- Whether a holder has died. -/
  poisoned : Bool

namespace Core

/-- A new machine under a free lock. -/
def create (config : EngineConfig) : Core :=
  ⟨Machine.create config, false, false⟩

/-- Whether the lock can be taken without waiting. -/
def isFree (core : Core) : Bool :=
  !core.held

def acquire (core : Core) : Core :=
  { core with held := true }

def release (core : Core) : Core :=
  { core with held := false }

/-- The lock after its holder has died. -/
def poison (core : Core) : Core :=
  { core with held := false, poisoned := true }

/-- Act on the machine without waiting, or answer `busy`. -/
def attempt {Result : Type} (busy : Result) (action : Machine → Result × Machine) :
    Core → Result × Core
  | ⟨machine, held, poisoned⟩ =>
      if held then (busy, ⟨machine, held, poisoned⟩)
      else
        let (result, machine) := action machine
        (result, ⟨machine, held, poisoned⟩)

/-- Change the machine once the lock is free. -/
def control (change : Machine → Machine) : Core → Core
  | ⟨machine, held, poisoned⟩ => ⟨change machine, held, poisoned⟩

/-- One frame, or silence without effect if the lock is held. -/
def tick (core : Core) (live : Frame) : Frame × Core :=
  core.attempt .silence (fun machine => machine.tick live)

/-- One block written over a buffer, or zeros without effect if the lock is held. -/
def processInto (core : Core) (input output : Array Sample) : Array Sample × Core :=
  core.attempt (Array.replicate output.size 0) (fun machine => machine.processInto input output)

/-- One block in a buffer of zeros. -/
def processBlock (core : Core) (input : Array Sample) (length : Nat) : Array Sample × Core :=
  core.processInto input (Array.replicate length 0)

def load (core : Core) (patch : Patch) : Core :=
  core.control (fun machine => machine.load patch)

def setSlider (core : Core) (index : Nat) (value : Sample) : Core :=
  core.control (fun machine => machine.setSlider index value)

def setSource (core : Core) (kind : SourceKind) : Core :=
  core.control (fun machine => machine.setSource kind)

def setFileFrames (core : Core) (frames : Array Frame) : Core :=
  core.control (fun machine => machine.setFileFrames frames)

def setRunState (core : Core) (runState : RunState) : Core :=
  core.control (fun machine => machine.setRunState runState)

/-- Make the change that a control message asks for. -/
def applyEvent (core : Core) (event : ControlEvent) : Core :=
  core.control (fun machine => machine.applyEvent event)

end Core

end SignalPatch
