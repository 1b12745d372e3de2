import SignalPatch.BoundedQueue
import SignalPatch.Sample.Basic

/-!
# The duplex callback

A sound card captures and plays at its own times.  Captured samples wait in a
bounded queue.  Each time the card wants a block, the callback takes as many
samples as the block has, or as its scratch holds, fills up with zeros what is
missing, and hands them to a process in a single call.  The scratch is laid out
once, and what earlier blocks left in it stays there until it is written over.
-/

namespace SignalPatch

/-- The state of a callback; there is no ring without a capture device. -/
structure Duplex (Queue : Type := RingBuffer Sample) where
  ring : Option Queue
  /-- The cells in which the input of a block is put together. -/
  scratch : Array Sample
  /--
  Blocks that found too little captured input.  The counter has 64 bits and no bound
  here: at a million blocks a second it would take half a million years to run out.
  -/
  underruns : Nat

namespace Duplex

variable {Queue : Type} [BoundedQueue Queue Sample]

/-- A callback with an empty ring of a given capacity, or without a ring. -/
def create (ringCapacity : Option Nat) (scratch : Nat) : Duplex Queue :=
  ⟨ringCapacity.map BoundedQueue.withCapacity, Array.replicate scratch 0, 0⟩

/-- Capture samples, and tell how many fitted; nothing is captured without a ring. -/
def capture (duplex : Duplex Queue) (samples : Array Sample) : Option Nat × Duplex Queue :=
  match duplex.ring with
  | none => (none, duplex)
  | some ring =>
      let (accepted, ring) := BoundedQueue.pushSlice ring samples
      (some accepted, { duplex with ring := some ring })

/-- Write values over the cells from an index on. -/
def overwrite (cells : Array Sample) (index : Nat) : List Sample → Array Sample
  | [] => cells
  | value :: others => overwrite (cells.setIfInBounds index value) (index + 1) others

/-- Write captured samples over the first cells, and zeros behind them up to a length. -/
def putInput (scratch captured : Array Sample) (wanted : Nat) : Array Sample :=
  let scratch := overwrite scratch 0 captured.toList
  if captured.size < wanted then
    overwrite scratch captured.size (List.replicate (wanted - captured.size) 0)
  else scratch

/-- Take captured samples out of the ring, if there is one. -/
def takeCaptured (ring : Option Queue) (count : Nat) : Array Sample × Option Queue :=
  match ring with
  | none => (#[], none)
  | some ring =>
      let (captured, ring) := BoundedQueue.popSlice ring count
      (captured, some ring)

/-- The input of a block of `length` samples, and the callback that has handed it over. -/
def takeInput : Duplex Queue → Nat → Array Sample × Duplex Queue
  | ⟨ring, scratch, underruns⟩, length =>
      let wanted := min length scratch.size
      let (captured, ring) := takeCaptured ring wanted
      let scratch := putInput scratch captured wanted
      let underruns :=
        if ring.isSome && captured.size < length then underruns + 1 else underruns
      (scratch.extract 0 wanted, ⟨ring, scratch, underruns⟩)

/--
Compute a block of `length` samples.  The process is given the input and the
length of the block, and carries a state of its own.
-/
def process {State : Type} (duplex : Duplex Queue)
    (compute : Array Sample → Nat → State → Array Sample × State) (length : Nat)
    (state : State) : Array Sample × Duplex Queue × State :=
  let (input, duplex) := duplex.takeInput length
  let (output, state) := compute input length state
  (output, duplex, state)

end Duplex

end SignalPatch
