import SignalPatch.Config.Engine
import SignalPatch.Duplex
import SignalPatch.Machine.Filters
import SignalPatch.Machine.OperandStack
import SignalPatch.Render
import SignalPatch.Telemetry

/-!
# Capacities

What has a capacity is laid out in memory as a whole, and memory has an end.  A
machine is made only when all that it is to hold is granted.  A sample has four
bytes.
-/

namespace SignalPatch

/-- How requests for memory end. -/
inductive Grant where
  | granted
  | refused
  /-- There cannot be so much memory. -/
  | impossible
deriving DecidableEq

/-- Requests for bytes of memory, in order; one without a number asks for what cannot be. -/
structure Allotment where
  requests : List (Option Nat)

namespace Allotment

def maxBytes : Nat :=
  0x7FFFFFFFFFFFFFFF

def granted : Allotment :=
  ⟨[]⟩

def impossible : Allotment :=
  ⟨[none]⟩

/-- The request for so many bytes. -/
def ofBytes (bytes : Nat) : Allotment :=
  if maxBytes < bytes then impossible else ⟨[some bytes]⟩

def isPossible (allotment : Allotment) : Bool :=
  allotment.requests.all Option.isSome

def andThen (first second : Allotment) : Allotment :=
  ⟨first.requests ++ second.requests⟩

def grantAll (memory : Nat) : List (Option Nat) → Grant
  | [] => .granted
  | none :: _ => .impossible
  | some bytes :: others => if memory ≤ bytes then .refused else grantAll memory others

/-- How the requests end on a machine with so many bytes of memory: the first that fails decides. -/
def grant (memory : Nat) (allotment : Allotment) : Grant :=
  grantAll memory allotment.requests

end Allotment

/-- The request of an operand stack for so many samples. -/
def OperandStack.allotment (capacity : Nat) : Allotment :=
  .ofBytes (4 * capacity)

/-- The request of taps that are asked to hold so many frames. -/
def Telemetry.allotment (requested : Nat) : Allotment :=
  .ofBytes (8 * Telemetry.capacityFor requested)

/-- The request of a capture ring for so many samples; one without room is not made. -/
def Duplex.ringAllotment (capacity : Nat) : Allotment :=
  if capacity = 0 then .impossible else .ofBytes (4 * capacity)

/-- The requests of a callback: its ring, if there is one, and its scratch. -/
def Duplex.allotment (ringCapacity : Option Nat) (scratch : Nat) : Allotment :=
  (ringCapacity.elim .granted ringAllotment).andThen (.ofBytes (4 * scratch))

def FilterBank.allotment (sites : Nat) : Allotment :=
  .ofBytes (4 * (maxTaps + 2) * sites)

def Rendering.allotment (frames : Nat) : Allotment :=
  .ofBytes (4 * samplesIn frames)

/-- The requests of a machine: its taps are made before its stack. -/
def EngineConfig.allotment (config : EngineConfig) : Allotment :=
  (Telemetry.allotment config.telemetryCapacity).andThen
    (OperandStack.allotment config.stackCapacity)

end SignalPatch
