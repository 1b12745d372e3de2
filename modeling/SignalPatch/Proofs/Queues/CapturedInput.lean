import Mathlib.Data.List.Basic
import SignalPatch.Duplex

/-!
# Captured input is handed over once and in order

Each block calls its process once.  The input holds the samples that have waited
longest, as many as there are and as fit, and only zeros behind them, whatever earlier
blocks have left in the scratch.  All samples that the ring accepts are handed over in
some block or still wait.
-/

namespace SignalPatch

namespace Duplex

variable {Queue : Type} [BoundedQueue Queue Sample]

theorem toList_overwrite {cells : Array Sample} {index : Nat} {values : List Sample}
    (inside : index + values.length ≤ cells.size) :
    (overwrite cells index values).toList =
      cells.toList.take index ++ values ++ cells.toList.drop (index + values.length) := by
  induction values generalizing cells index with
  | nil => simp [overwrite]
  | cons value others ih =>
      simp only [List.length_cons] at inside ⊢
      have within : index < cells.toList.length := by
        rw [Array.length_toList]
        omega
      rw [overwrite, ih (by rw [Array.size_setIfInBounds]; omega), Array.toList_setIfInBounds,
        List.take_add_one, List.take_set_of_le (Nat.le_refl index), List.drop_set_of_lt (by omega),
        List.getElem?_set_self within]
      simp [Nat.add_right_comm, Nat.add_assoc]

theorem size_overwrite (cells : Array Sample) (index : Nat) (values : List Sample) :
    (overwrite cells index values).size = cells.size := by
  induction values generalizing cells index with
  | nil => rfl
  | cons value others ih => rw [overwrite, ih, Array.size_setIfInBounds]

theorem size_putInput (scratch captured : Array Sample) (wanted : Nat) :
    (putInput scratch captured wanted).size = scratch.size := by
  simp only [putInput]
  split
  · rw [size_overwrite, size_overwrite]
  · rw [size_overwrite]

/-- Nothing of what the scratch held before is left in an input. -/
theorem toList_putInput {scratch captured : Array Sample} {wanted : Nat}
    (within : captured.size ≤ wanted) (inside : wanted ≤ scratch.size) :
    ((putInput scratch captured wanted).extract 0 wanted).toList =
      captured.toList ++ List.replicate (wanted - captured.size) 0 := by
  have frontEq : (overwrite scratch 0 captured.toList).toList =
      captured.toList ++ scratch.toList.drop captured.size := by
    rw [toList_overwrite (by simp; omega)]
    simp
  rw [Array.toList_extract, List.extract_eq_take_drop, putInput, List.drop_zero, Nat.sub_zero]
  split
  -- the zeros reach as far as the input does, so that old cells are behind its end only
  · rename_i missing
    have sizeEq : (List.replicate (wanted - captured.size) (0 : Sample)).length =
        wanted - captured.size := List.length_replicate
    rw [toList_overwrite (by rw [size_overwrite, sizeEq]; omega), frontEq, sizeEq]
    have takeEq : (captured.toList ++ scratch.toList.drop captured.size).take captured.size =
        captured.toList := by
      rw [← Array.length_toList, List.take_left]
    rw [takeEq]
    exact List.take_left' (by simp; omega)
  · rename_i whole
    have sizeEq : wanted = captured.size := by omega
    rw [frontEq, sizeEq, Nat.sub_self, ← Array.length_toList, List.take_left]
    simp

/-- The captured samples that wait, the oldest first. -/
def waiting (duplex : Duplex Queue) : List Sample :=
  duplex.ring.elim [] BoundedQueue.waiting

/-- For how many samples the ring has room. -/
def room (duplex : Duplex Queue) : Nat :=
  duplex.ring.elim 0 (fun ring => BoundedQueue.capacity ring - (BoundedQueue.waiting ring).length)

/-- The captured samples that the next block of a length takes. -/
def nextCaptured (duplex : Duplex Queue) (length : Nat) : List Sample :=
  duplex.waiting.take (min length duplex.scratch.size)

theorem takeCaptured_eq [LawfulBoundedQueue Queue Sample] (ring : Option Queue)
    (scratch : Array Sample) (underruns length : Nat) :
    (takeCaptured ring (min length scratch.size)).1.toList =
        nextCaptured ⟨ring, scratch, underruns⟩ length ∧
      waiting ⟨(takeCaptured ring (min length scratch.size)).2, scratch, underruns⟩ =
        (waiting ⟨ring, scratch, underruns⟩).drop (min length scratch.size) ∧
      (takeCaptured ring (min length scratch.size)).2.isSome = ring.isSome := by
  cases ring with
  | none => simp [takeCaptured, nextCaptured, waiting]
  | some ring =>
      refine ⟨?_, ?_, rfl⟩
      · exact LawfulBoundedQueue.popSlice_items ring (min length scratch.size)
      · exact LawfulBoundedQueue.waiting_popSlice ring (min length scratch.size)

/-- What a block makes of a callback. -/
structure TakesInput (before : Duplex Queue) (length : Nat) (input : Array Sample)
    (after : Duplex Queue) : Prop where
  input_eq : input.toList = before.nextCaptured length ++
    List.replicate (min length before.scratch.size - (before.nextCaptured length).length) 0
  waiting_eq : before.waiting = before.nextCaptured length ++ after.waiting
  ring_eq : after.ring.isSome = before.ring.isSome
  scratch_eq : after.scratch.size = before.scratch.size
  underruns_eq : after.underruns = before.underruns +
    if before.ring.isSome && (before.nextCaptured length).length < length then 1 else 0

theorem takesInput [LawfulBoundedQueue Queue Sample] (duplex : Duplex Queue) (length : Nat) :
    duplex.TakesInput length (duplex.takeInput length).1 (duplex.takeInput length).2 := by
  obtain ⟨ring, scratch, underruns⟩ := duplex
  obtain ⟨capturedEq, waitingEq, ringEq⟩ := takeCaptured_eq ring scratch underruns length
  have sizeEq : (takeCaptured ring (min length scratch.size)).1.size =
      (nextCaptured ⟨ring, scratch, underruns⟩ length).length := by
    rw [← Array.length_toList, capturedEq]
  have within : (nextCaptured ⟨ring, scratch, underruns⟩ length).length ≤
      min length scratch.size := List.length_take_le _ _
  constructor
  · have inputEq : ((putInput scratch (takeCaptured ring (min length scratch.size)).1
        (min length scratch.size)).extract 0 (min length scratch.size)).toList = _ :=
      toList_putInput (sizeEq ▸ within) (Nat.min_le_right _ _)
    rw [capturedEq, sizeEq] at inputEq
    exact inputEq
  · refine (List.take_append_drop (min length scratch.size) _).symm.trans ?_
    exact congrArg _ waitingEq.symm
  · exact ringEq
  · exact size_putInput _ _ _
  · simp only [takeInput, ringEq, sizeEq]
    split
    · rfl
    · rfl

/-- What the sound card does with a callback. -/
inductive Action where
  | capture (samples : Array Sample)
  /-- Ask for a block of so many samples. -/
  | block (length : Nat)

def Action.length? : Action → Option Nat
  | .capture _ => none
  | .block length => some length

/-- What a process is called with. -/
structure Call where
  input : Array Sample
  length : Nat

/-- A block, and the captured samples that go into its input. -/
structure Delivery where
  length : Nat
  captured : List Sample

/-- Whether a block found too little captured input. -/
def Delivery.isShort (delivery : Delivery) : Bool :=
  delivery.captured.length < delivery.length

/-- The call that delivers a block with a scratch of a given size. -/
def Delivery.call (scratch : Nat) (delivery : Delivery) : Call where
  input := (delivery.captured ++
    List.replicate (min delivery.length scratch - delivery.captured.length) 0).toArray
  length := delivery.length

/-- A process that also writes down its calls. -/
def logged {State : Type} (compute : Array Sample → Nat → State → Array Sample × State)
    (input : Array Sample) (length : Nat) (state : State × List Call) :
    Array Sample × (State × List Call) :=
  let (output, next) := compute input length state.1
  (output, next, state.2 ++ [⟨input, length⟩])

def act {State : Type} (compute : Array Sample → Nat → State → Array Sample × State)
    (current : Duplex Queue × State) : Action → Duplex Queue × State
  | .capture samples => ((current.1.capture samples).2, current.2)
  | .block length => (current.1.process compute length current.2).2

def actAll {State : Type} (compute : Array Sample → Nat → State → Array Sample × State)
    (start : Duplex Queue × State) (actions : List Action) : Duplex Queue × State :=
  actions.foldl (act compute) start

/-- A callback behind an action, whatever its process computes. -/
def behind (duplex : Duplex Queue) : Action → Duplex Queue
  | .capture samples => (duplex.capture samples).2
  | .block length => (duplex.takeInput length).2

/-- The samples of an action that the ring accepts: as many leading ones as there is room for. -/
def accepted (duplex : Duplex Queue) : Action → List Sample
  | .capture samples => samples.toList.take (min samples.size duplex.room)
  | .block _ => []

def delivery? (duplex : Duplex Queue) : Action → Option Delivery
  | .capture _ => none
  | .block length => some ⟨length, duplex.nextCaptured length⟩

def acceptedAll : Duplex Queue → List Action → List Sample
  | _, [] => []
  | duplex, action :: others =>
      duplex.accepted action ++ acceptedAll (duplex.behind action) others

def deliveries : Duplex Queue → List Action → List Delivery
  | _, [] => []
  | duplex, action :: others =>
      (duplex.delivery? action).toList ++ deliveries (duplex.behind action) others

theorem map_length_deliveries (duplex : Duplex Queue) (actions : List Action) :
    (duplex.deliveries actions).map Delivery.length = actions.filterMap Action.length? := by
  induction actions generalizing duplex with
  | nil => rfl
  | cons action others ih =>
      rw [deliveries, List.map_append, ih]
      cases action with
      | capture => rfl
      | block => rfl

structure Continues (before after : Duplex Queue) : Prop where
  ring_eq : after.ring.isSome = before.ring.isSome
  scratch_eq : after.scratch.size = before.scratch.size

variable [LawfulBoundedQueue Queue Sample]

theorem waiting_create (ringCapacity : Option Nat) (scratch : Nat) :
    (create ringCapacity scratch : Duplex Queue).waiting = [] := by
  cases ringCapacity with
  | none => rfl
  | some capacity => exact LawfulBoundedQueue.waiting_withCapacity capacity

theorem capacity_create (ringCapacity : Option Nat) (scratch : Nat) :
    (create ringCapacity scratch : Duplex Queue).ring.map BoundedQueue.capacity =
      ringCapacity := by
  cases ringCapacity with
  | none => rfl
  | some capacity =>
      have capacityEq : BoundedQueue.capacity (BoundedQueue.withCapacity capacity : Queue) =
          capacity := LawfulBoundedQueue.capacity_withCapacity capacity
      exact congrArg some capacityEq

/-- A capture tells how many samples the ring has accepted, if there is one. -/
theorem capture_count (duplex : Duplex Queue) (samples : Array Sample) :
    (duplex.capture samples).1 = duplex.ring.map (fun _ => min samples.size duplex.room) := by
  obtain ⟨ring, scratch, underruns⟩ := duplex
  cases ring with
  | none => rfl
  | some ring => exact congrArg some (LawfulBoundedQueue.pushSlice_count ring samples)

theorem waiting_capture (duplex : Duplex Queue) (samples : Array Sample) :
    (duplex.capture samples).2.waiting =
      duplex.waiting ++ duplex.accepted (.capture samples) := by
  obtain ⟨ring, scratch, underruns⟩ := duplex
  cases ring with
  | none => simp [capture, accepted, waiting, room]
  | some ring =>
      have waitingEq := LawfulBoundedQueue.waiting_pushSlice ring samples
      rwa [LawfulBoundedQueue.pushSlice_count] at waitingEq

theorem continues_behind (duplex : Duplex Queue) (action : Action) :
    duplex.Continues (duplex.behind action) := by
  cases action with
  | capture samples =>
      obtain ⟨ring, scratch, underruns⟩ := duplex
      cases ring with
      | none => exact ⟨rfl, rfl⟩
      | some ring => exact ⟨rfl, rfl⟩
  | block length =>
      have takes := duplex.takesInput length
      exact ⟨takes.ring_eq, takes.scratch_eq⟩

theorem capacity_behind (duplex : Duplex Queue) (action : Action) :
    (duplex.behind action).ring.map BoundedQueue.capacity =
      duplex.ring.map BoundedQueue.capacity := by
  obtain ⟨ring, scratch, underruns⟩ := duplex
  cases ring with
  | none => cases action <;> rfl
  | some ring =>
      cases action with
      | capture samples => exact congrArg some (LawfulBoundedQueue.capacity_pushSlice ring samples)
      | block length => exact congrArg some (LawfulBoundedQueue.capacity_popSlice ring _)

theorem capacity_foldl (duplex : Duplex Queue) (actions : List Action) :
    (actions.foldl behind duplex).ring.map BoundedQueue.capacity =
      duplex.ring.map BoundedQueue.capacity := by
  induction actions generalizing duplex with
  | nil => rfl
  | cons action others ih => exact (ih (duplex.behind action)).trans (duplex.capacity_behind action)

/-- What waited and what is accepted is what is delivered and what waits then. -/
theorem waiting_behind (duplex : Duplex Queue) (action : Action) :
    duplex.waiting ++ duplex.accepted action =
      (duplex.delivery? action).toList.flatMap Delivery.captured ++
        (duplex.behind action).waiting := by
  cases action with
  | capture samples => exact (duplex.waiting_capture samples).symm
  | block length =>
      have waitingEq := (duplex.takesInput length).waiting_eq
      simpa [accepted, delivery?, behind] using waitingEq

theorem underruns_behind (duplex : Duplex Queue) (action : Action) :
    (duplex.behind action).underruns = duplex.underruns +
      if duplex.ring.isSome then (duplex.delivery? action).toList.countP Delivery.isShort
      else 0 := by
  cases action with
  | capture samples =>
      obtain ⟨ring, scratch, underruns⟩ := duplex
      cases ring with
      | none => rfl
      | some ring => rfl
  | block length =>
      rw [behind, (duplex.takesInput length).underruns_eq]
      cases duplex.ring.isSome with
      | false => rfl
      | true => simp [delivery?, Delivery.isShort, List.countP_singleton]

/-- Nothing that the ring accepts is lost, doubled or moved. -/
theorem deliveries_append_waiting (duplex : Duplex Queue) (actions : List Action) :
    (duplex.deliveries actions).flatMap Delivery.captured ++
        (actions.foldl behind duplex).waiting =
      duplex.waiting ++ duplex.acceptedAll actions := by
  induction actions generalizing duplex with
  | nil => simp [deliveries, acceptedAll]
  | cons action others ih =>
      have rest := ih (duplex.behind action)
      rw [acceptedAll, ← List.append_assoc, waiting_behind, List.append_assoc, ← rest,
        deliveries, List.flatMap_append, List.append_assoc]
      rfl

theorem underruns_foldl (duplex : Duplex Queue) (actions : List Action) :
    (actions.foldl behind duplex).underruns = duplex.underruns +
      if duplex.ring.isSome then (duplex.deliveries actions).countP Delivery.isShort else 0 := by
  induction actions generalizing duplex with
  | nil => simp [deliveries]
  | cons action others ih =>
      have rest := ih (duplex.behind action)
      rw [underruns_behind, (duplex.continues_behind action).ring_eq] at rest
      rw [List.foldl_cons, rest, deliveries, List.countP_append]
      split
      · omega
      · omega

variable {State : Type} (compute : Array Sample → Nat → State → Array Sample × State)

theorem act_logged (duplex : Duplex Queue) (state : State) (calls : List Call) (action : Action) :
    ∃ next, act (logged compute) (duplex, state, calls) action =
      (duplex.behind action, next,
        calls ++ (duplex.delivery? action).toList.map (Delivery.call duplex.scratch.size)) := by
  cases action with
  | capture samples => exact ⟨state, by simp [act, behind, delivery?]⟩
  | block length =>
      have inputEq := (duplex.takesInput length).input_eq
      have callEq : Delivery.call duplex.scratch.size ⟨length, duplex.nextCaptured length⟩ =
          ⟨(duplex.takeInput length).1, length⟩ := by
        rw [Delivery.call, ← inputEq]
      refine ⟨(compute (duplex.takeInput length).1 length state).2, ?_⟩
      simp only [delivery?, Option.toList_some, List.map_singleton, callEq]
      rfl

theorem actAll_logged (duplex : Duplex Queue) (state : State) (calls : List Call)
    (actions : List Action) :
    ∃ next, actAll (logged compute) (duplex, state, calls) actions =
      (actions.foldl behind duplex, next,
        calls ++ (duplex.deliveries actions).map (Delivery.call duplex.scratch.size)) := by
  induction actions generalizing duplex state calls with
  | nil => exact ⟨state, by simp [actAll, deliveries]⟩
  | cons action others ih =>
      obtain ⟨next, actEq⟩ := act_logged compute duplex state calls action
      obtain ⟨last, restEq⟩ := ih (duplex.behind action) next _
      refine ⟨last, ?_⟩
      rw [actAll, List.foldl_cons, actEq]
      refine restEq.trans ?_
      rw [(duplex.continues_behind action).scratch_eq, deliveries, List.map_append,
        List.append_assoc]
      rfl

theorem length_captured_le {duplex : Duplex Queue} {actions : List Action} {delivery : Delivery}
    (member : delivery ∈ duplex.deliveries actions) :
    delivery.captured.length ≤ min delivery.length duplex.scratch.size := by
  induction actions generalizing duplex with
  | nil => cases member
  | cons action others ih =>
      rcases List.mem_append.mp member with now | later
      · cases action with
        | capture => cases now
        | block length =>
            rw [List.mem_singleton.mp now]
            exact List.length_take_le _ _
      · have within := ih later
        rwa [(duplex.continues_behind action).scratch_eq] at within

/--
Whatever is captured and asked for, a process is called once for each block, with the
length of the block and an input as long as the block or the scratch.  The input holds the
captured samples that come next and zeros behind them.  What went into the inputs and what
still waits are the samples that the ring accepted, in order.  Of a callback with a ring,
the blocks that found too little captured input are counted.  The ring keeps its capacity,
and a capture tells how many leading samples have found room.
-/
theorem captured_handed_over (ringCapacity : Option Nat) (scratch : Nat) (state : State)
    (actions : List Action) :
    let start : Duplex Queue := create ringCapacity scratch
    let (after, _, calls) := actAll (logged compute) (start, state, []) actions
    let deliveries := start.deliveries actions
    calls = deliveries.map (Delivery.call scratch) ∧
      calls.map Call.length = actions.filterMap Action.length? ∧
      (∀ call ∈ calls, call.input.size = min call.length scratch) ∧
      deliveries.flatMap Delivery.captured ++ after.waiting = start.acceptedAll actions ∧
      after.underruns =
        (if ringCapacity.isSome then deliveries.countP Delivery.isShort else 0) ∧
      after.ring.map BoundedQueue.capacity = ringCapacity ∧
      ∀ samples, (after.capture samples).1 = ringCapacity.map (fun capacity =>
        min samples.size (capacity - after.waiting.length)) := by
  intro start
  have scratchEq : start.scratch.size = scratch := Array.size_replicate
  have freshEq : start.waiting = [] := waiting_create ringCapacity scratch
  have ringEq : start.ring.isSome = ringCapacity.isSome := Option.isSome_map
  obtain ⟨last, runEq⟩ := actAll_logged compute start state [] actions
  rw [runEq, scratchEq, List.nil_append]
  have capacityEq : (actions.foldl behind start).ring.map BoundedQueue.capacity = ringCapacity :=
    (start.capacity_foldl actions).trans (capacity_create ringCapacity scratch)
  refine ⟨rfl, ?_, ?_, ?_, ?_, capacityEq, ?_⟩
  · rw [List.map_map, ← start.map_length_deliveries actions]
    rfl
  · intro call member
    obtain ⟨delivery, delivered, rfl⟩ := List.mem_map.mp member
    have within := length_captured_le delivered
    rw [scratchEq] at within
    simp only [Delivery.call, List.size_toArray, List.length_append, List.length_replicate]
    omega
  · rw [deliveries_append_waiting, freshEq, List.nil_append]
  · rw [underruns_foldl, ringEq]
    exact Nat.zero_add _
  · intro samples
    rw [capture_count, ← capacityEq, Option.map_map]
    cases ringEq : (actions.foldl behind start).ring with
    | none => rfl
    | some ring => simp [room, waiting, ringEq]

/-- A ring that loses a sample and then runs dry, under a block that is longer than the scratch. -/
theorem captured_handed_over_overflow :
    let start : Duplex (RingBuffer Sample) := create (some 2) 3
    let actions : List Action := [.capture #[⟨1⟩, ⟨2⟩, ⟨3⟩], .block 1, .capture #[⟨4⟩], .block 4]
    let (after, _, calls) :=
      actAll (logged (fun _ length state => (Array.replicate length 0, state)))
        (start, (), []) actions
    start.acceptedAll actions = [⟨1⟩, ⟨2⟩, ⟨4⟩] ∧
      calls.map Call.input = [#[⟨1⟩], #[⟨2⟩, ⟨4⟩, 0]] ∧
      after.underruns = 1 ∧
      (after.capture #[⟨5⟩, ⟨6⟩, ⟨7⟩]).1 = some 2 := by
  intro start actions
  obtain ⟨callsEq, _, _, _, underrunsEq, _, captureEq⟩ :=
    @captured_handed_over (RingBuffer Sample) _ _ _
      (fun _ length state => (Array.replicate length 0, state)) (some 2) 3 () actions
  refine ⟨by decide +kernel, ?_, underrunsEq.trans (by decide +kernel), ?_⟩
  · exact (congrArg (List.map Call.input) callsEq).trans (by decide +kernel)
  · exact (captureEq _).trans (by decide +kernel)

end Duplex

end SignalPatch
