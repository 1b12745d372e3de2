import SignalPatch.BoundedQueue
import SignalPatch.Frame

/-!
# Telemetry

Every output frame is offered to two taps, from which viewers read at their own
pace.  A tap is a bounded queue: a viewer that falls behind loses the newest
frames, and each loss is counted.
-/

namespace SignalPatch

abbrev tapCount : Nat := 2

abbrev Tap := Fin tapCount

/--
The taps, and the number of frames lost at them together.  The counter has 64 bits and
no bound here: at a million losses a second it would take half a million years to run out.
-/
structure Telemetry (Queue : Type := RingBuffer Frame) where
  taps : Vector Queue tapCount
  dropped : Nat

namespace Telemetry

/-- The capacity of a tap that is asked to hold so many frames: the next power of two. -/
def capacityFor (requested : Nat) : Nat :=
  if requested ≤ 1 then 1 else 1 <<< ((requested - 1).log2 + 1)

variable {Queue : Type} [BoundedQueue Queue Frame]

def withCapacity (requested : Nat) : Telemetry Queue :=
  ⟨Vector.replicate tapCount (BoundedQueue.withCapacity (capacityFor requested)), 0⟩

/-- Offer a frame to every tap, and count those that have no room for it. -/
def push : Telemetry Queue → Frame → Telemetry Queue
  | ⟨taps, dropped⟩, frame =>
      let offers := taps.map (fun queue => BoundedQueue.tryPush queue frame)
      let lost := offers.countP (fun offer => !offer.1)
      ⟨offers.map Prod.snd, dropped + lost⟩

/-- The queue of a tap. -/
def ring (telemetry : Telemetry Queue) (tap : Tap) : Queue :=
  telemetry.taps[tap]

def available (telemetry : Telemetry Queue) (tap : Tap) : Nat :=
  BoundedQueue.occupied (telemetry.ring tap)

def capacity (telemetry : Telemetry Queue) (tap : Tap) : Nat :=
  BoundedQueue.capacity (telemetry.ring tap)

/-- Take out up to `count` frames, the oldest first. -/
def read (telemetry : Telemetry Queue) (tap : Tap) (count : Nat) :
    Array Frame × Telemetry Queue :=
  let (frames, ring) := BoundedQueue.popSlice (telemetry.ring tap) count
  (frames, ⟨telemetry.taps.set tap ring, telemetry.dropped⟩)

/-- Take out frames into the front of a buffer, and tell how many there were. -/
def readInto (telemetry : Telemetry Queue) (tap : Tap) (buffer : Array Frame) :
    Nat × Array Frame × Telemetry Queue :=
  let (frames, telemetry) := telemetry.read tap buffer.size
  (frames.size, frames ++ buffer.extract frames.size buffer.size, telemetry)

end Telemetry

end SignalPatch
