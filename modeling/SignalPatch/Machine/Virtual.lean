import SignalPatch.Machine.Core

/-!
# The virtual machine

A virtual machine is a shared machine with a transport, which moves blocks
between it and the outside.  The machine runs exactly while the transport is
open.  Whether a transport opens is up to the outside, so every attempt to
start is told how it went.
-/

namespace SignalPatch

/-- Why a transport does not open. -/
inductive TransportError where
  | noOutputDevice
  | streamBuild (detail : String)
  | streamPlay (detail : String)
  | unavailable (detail : String)
deriving DecidableEq

def TransportError.message : TransportError → String
  | noOutputDevice => "no audio output device found"
  | streamBuild detail => "stream build error: " ++ detail
  | streamPlay detail => "stream play error: " ++ detail
  | unavailable detail => "transport unavailable: " ++ detail

/-- A machine and whether its transport is open. -/
structure VirtualMachine where
  core : Core
  isOpen : Bool

namespace VirtualMachine

/-- A stopped machine with a closed transport. -/
def create (config : EngineConfig) : VirtualMachine :=
  ⟨Core.create config, false⟩

def stop (virtual : VirtualMachine) : VirtualMachine :=
  ⟨virtual.core.setRunState .stopped, false⟩

/--
Open the transport and run the machine.  An open transport is closed first, so
that a machine whose transport does not open again stays stopped.
-/
def start (virtual : VirtualMachine) (opened : Except TransportError Unit) :
    Except TransportError Unit × VirtualMachine :=
  let closed := if virtual.isOpen then virtual.stop else virtual
  match opened with
  | .ok () => (.ok (), ⟨closed.core.setRunState .running, true⟩)
  | .error error => (.error error, closed)

def isRunning (virtual : VirtualMachine) : Bool :=
  virtual.core.machine.runState == .running

def onCore {Result : Type} (action : Core → Result × Core) :
    VirtualMachine → Result × VirtualMachine
  | ⟨core, isOpen⟩ =>
      let (result, core) := action core
      (result, ⟨core, isOpen⟩)

def control (change : Core → Core) : VirtualMachine → VirtualMachine
  | ⟨core, isOpen⟩ => ⟨change core, isOpen⟩

/-- One frame, without the transport. -/
def tick (virtual : VirtualMachine) (live : Frame) : Frame × VirtualMachine :=
  virtual.onCore (fun core => core.tick live)

/-- One block through the transport, which is silent while it is closed. -/
def pull (virtual : VirtualMachine) (input : Array Sample) (length : Nat) :
    Array Sample × VirtualMachine :=
  if virtual.isOpen then virtual.onCore (fun core => core.processBlock input length)
  else (Array.replicate length 0, virtual)

/-- Blocks that found too little captured input: none, as nothing is captured here. -/
def inputUnderruns (_ : VirtualMachine) : Nat :=
  0

end VirtualMachine

end SignalPatch
