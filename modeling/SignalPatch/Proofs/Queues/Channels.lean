import SignalPatch.Proofs.Machine.Blocks
import SignalPatch.Proofs.Queues.CapturedInput

/-!
# Channels stay apart

Captured samples are interleaved frames.  Where the ring, the scratch, all captures and
all blocks are of even length, only whole frames go into the ring and out of it, also when
it overflows, when it runs dry and when a block is longer than the scratch.  So the two
samples of a frame are never torn apart, and left and right are never exchanged.
-/

namespace SignalPatch

/-- The frames of interleaved samples; half a frame at the end is left out. -/
def framesOf : List Sample → List Frame
  | left :: right :: others => ⟨left, right⟩ :: framesOf others
  | _ => []

theorem interleaved_framesOf {samples : List Sample} (even : 2 ∣ samples.length) :
    interleaved (framesOf samples) = samples := by
  induction samples using framesOf.induct with
  | case1 left right others ih =>
      have evenOthers : 2 ∣ others.length := by
        simp only [List.length_cons] at even
        omega
      exact congrArg (fun rest => left :: right :: rest) (ih evenOthers)
  | case2 samples short =>
      rcases samples with _ | ⟨left, _ | ⟨right, others⟩⟩
      · rfl
      · simp at even
      · exact absurd rfl (short left right others)

theorem framesOf_interleaved_append (frames : List Frame) (samples : List Sample) :
    framesOf (interleaved frames ++ samples) = frames ++ framesOf samples := by
  induction frames with
  | nil => rfl
  | cons frame others ih => exact congrArg (frame :: ·) ih

theorem framesOf_append {first : List Sample} (even : 2 ∣ first.length)
    (second : List Sample) :
    framesOf (first ++ second) = framesOf first ++ framesOf second := by
  have splitEq := framesOf_interleaved_append (framesOf first) second
  rwa [interleaved_framesOf even] at splitEq

/-- The first samples of a list, if they are of even number, are its first frames. -/
theorem framesOf_take {samples : List Sample} {count : Nat}
    (even : 2 ∣ (samples.take count).length) :
    framesOf (samples.take count) <+: framesOf samples := by
  refine ⟨framesOf (samples.drop count), ?_⟩
  rw [← framesOf_append even, List.take_append_drop]

namespace Duplex

/-- How many samples an action captures or asks for. -/
def Action.size : Action → Nat
  | .capture samples => samples.size
  | .block length => length

def Action.frames : Action → List Frame
  | .capture samples => framesOf samples.toList
  | .block _ => []

/-- The frames that were captured, whether the ring had room for them or not. -/
def capturedFrames (actions : List Action) : List Frame :=
  actions.flatMap Action.frames

def Delivery.frames (delivery : Delivery) : List Frame :=
  framesOf delivery.captured

/-- How many frames of silence stand behind those of a delivery, with a scratch of a given size. -/
def Delivery.missing (scratch : Nat) (delivery : Delivery) : Nat :=
  (min delivery.length scratch - delivery.captured.length) / 2

/-- A delivery of whole frames. -/
structure Delivery.IsWhole (delivery : Delivery) : Prop where
  length_even : 2 ∣ delivery.length
  captured_even : 2 ∣ delivery.captured.length

theorem Delivery.IsWhole.input_eq {delivery : Delivery} {scratch : Nat}
    (whole : delivery.IsWhole) (even : 2 ∣ scratch) :
    (delivery.call scratch).input.toList =
      interleaved (delivery.frames ++
        List.replicate (delivery.missing scratch) .silence) := by
  obtain ⟨lengthEven, capturedEven⟩ := whole
  have missingEq : 2 * delivery.missing scratch =
      min delivery.length scratch - delivery.captured.length := by
    unfold Delivery.missing
    omega
  rw [interleaved_append, interleaved_replicate_silence, missingEq, Delivery.frames,
    interleaved_framesOf capturedEven]
  rfl

variable {Queue : Type} [BoundedQueue Queue Sample]

/-- A callback that holds whole frames and has room for whole frames. -/
structure InFrames (duplex : Duplex Queue) : Prop where
  ring_even : ∀ capacity ∈ duplex.ring.map BoundedQueue.capacity, 2 ∣ capacity
  waiting_even : 2 ∣ duplex.waiting.length
  scratch_even : 2 ∣ duplex.scratch.size

variable {duplex : Duplex Queue} {action : Action}

/-- A ring that overflows accepts whole frames only. -/
theorem InFrames.accepted_even (inFrames : duplex.InFrames) (even : 2 ∣ action.size) :
    2 ∣ (duplex.accepted action).length := by
  obtain ⟨ring, scratch, underruns⟩ := duplex
  obtain ⟨ringEven, waitingEven, _⟩ := inFrames
  cases action with
  | block length => exact Nat.dvd_zero 2
  | capture samples =>
      cases ring with
      | none => simp [accepted, room]
      | some ring =>
          have capacityEven : 2 ∣ BoundedQueue.capacity ring := ringEven _ rfl
          have heldEven : 2 ∣ (BoundedQueue.waiting ring).length := waitingEven
          have samplesEven : 2 ∣ samples.size := even
          simp only [accepted, room, Option.elim_some, List.length_take, Array.length_toList]
          omega

/-- A block takes whole frames only, also where the ring runs dry or the scratch is short. -/
theorem InFrames.isWhole (inFrames : duplex.InFrames) (even : 2 ∣ action.size)
    {delivery : Delivery} (delivered : delivery ∈ duplex.delivery? action) :
    delivery.IsWhole := by
  cases action with
  | capture samples => cases delivered
  | block length =>
      cases delivered
      have waitingEven := inFrames.waiting_even
      have scratchEven := inFrames.scratch_even
      have lengthEven : 2 ∣ length := even
      refine ⟨even, ?_⟩
      rw [nextCaptured, List.length_take]
      omega

/-- The frames that are accepted are among those of the capture, in their order. -/
theorem InFrames.accepted_sublist (inFrames : duplex.InFrames) (even : 2 ∣ action.size) :
    (framesOf (duplex.accepted action)).Sublist action.frames := by
  have acceptedEven := inFrames.accepted_even even
  cases action with
  | block length => exact List.Sublist.refl []
  | capture samples => exact (framesOf_take acceptedEven).sublist

variable [LawfulBoundedQueue Queue Sample]

theorem InFrames.behind (inFrames : duplex.InFrames) (even : 2 ∣ action.size) :
    (duplex.behind action).InFrames := by
  refine ⟨?_, ?_, ?_⟩
  · rw [capacity_behind]
    exact inFrames.ring_even
  · have lengths := congrArg List.length (duplex.waiting_behind action)
    have acceptedEven := inFrames.accepted_even even
    have waitingEven := inFrames.waiting_even
    cases delivered : duplex.delivery? action with
    | none =>
        simp only [delivered, Option.toList_none, List.flatMap_nil, List.nil_append,
          List.length_append] at lengths
        omega
    | some delivery =>
        have capturedEven := (inFrames.isWhole even delivered).captured_even
        simp only [delivered, Option.toList_some, List.flatMap_singleton,
          List.length_append] at lengths
        omega
  · rw [(duplex.continues_behind action).scratch_eq]
    exact inFrames.scratch_even

variable {actions : List Action}

theorem InFrames.isWhole_of_mem (inFrames : duplex.InFrames)
    (even : ∀ action ∈ actions, 2 ∣ action.size) {delivery : Delivery}
    (delivered : delivery ∈ duplex.deliveries actions) : delivery.IsWhole := by
  induction actions generalizing duplex with
  | nil => cases delivered
  | cons action others ih =>
      obtain ⟨actionEven, othersEven⟩ := List.forall_mem_cons.mp even
      rcases List.mem_append.mp delivered with now | later
      · exact inFrames.isWhole actionEven (Option.mem_toList.mp now)
      · exact ih (inFrames.behind actionEven) othersEven later

theorem InFrames.acceptedAll_sublist (inFrames : duplex.InFrames)
    (even : ∀ action ∈ actions, 2 ∣ action.size) :
    (framesOf (duplex.acceptedAll actions)).Sublist (capturedFrames actions) := by
  induction actions generalizing duplex with
  | nil => exact List.Sublist.refl []
  | cons action others ih =>
      obtain ⟨actionEven, othersEven⟩ := List.forall_mem_cons.mp even
      rw [acceptedAll, framesOf_append (inFrames.accepted_even actionEven)]
      exact (inFrames.accepted_sublist actionEven).append
        (ih (inFrames.behind actionEven) othersEven)

theorem framesOf_flatMap_captured {deliveries : List Delivery}
    (whole : ∀ delivery ∈ deliveries, delivery.IsWhole) (samples : List Sample) :
    framesOf (deliveries.flatMap Delivery.captured ++ samples) =
      deliveries.flatMap Delivery.frames ++ framesOf samples := by
  induction deliveries with
  | nil => rfl
  | cons delivery others ih =>
      obtain ⟨deliveryWhole, othersWhole⟩ := List.forall_mem_cons.mp whole
      rw [List.flatMap_cons, List.append_assoc, framesOf_append deliveryWhole.captured_even,
        ih othersWhole, List.flatMap_cons, List.append_assoc]
      rfl

/-- What is delivered from an empty ring is captured, frame by frame, in the same order. -/
theorem InFrames.delivered_sublist (inFrames : duplex.InFrames) (fresh : duplex.waiting = [])
    (even : ∀ action ∈ actions, 2 ∣ action.size) :
    ((duplex.deliveries actions).flatMap Delivery.frames).Sublist (capturedFrames actions) := by
  have whole : ∀ delivery ∈ duplex.deliveries actions, delivery.IsWhole :=
    fun _ delivered => inFrames.isWhole_of_mem even delivered
  have framesEq := framesOf_flatMap_captured whole (actions.foldl Duplex.behind duplex).waiting
  rw [deliveries_append_waiting, fresh, List.nil_append] at framesEq
  have accepted := inFrames.acceptedAll_sublist even
  rw [framesEq] at accepted
  exact (List.sublist_append_left _ _).trans accepted

theorem inFrames_create {ringCapacity : Option Nat} {scratch : Nat}
    (ringEven : ∀ capacity ∈ ringCapacity, 2 ∣ capacity) (scratchEven : 2 ∣ scratch) :
    (create ringCapacity scratch : Duplex Queue).InFrames := by
  refine ⟨?_, ?_, ?_⟩
  · rw [capacity_create]
    exact ringEven
  · rw [waiting_create]
    exact Nat.dvd_zero 2
  · rw [create, Array.size_replicate]
    exact scratchEven

variable {State : Type} (compute : Array Sample → Nat → State → Array Sample × State)

/--
Where everything is of even length, the input of a call is made of whole frames: frames that
were captured, and silence behind them.  The frames handed over by all calls stand in the
order in which they were captured, each at most once.  So each pair of samples in an input
is the left and the right one of a single captured frame, or two zeros.
-/
theorem channels_kept {ringCapacity : Option Nat} {scratch : Nat} {actions : List Action}
    (ringEven : ∀ capacity ∈ ringCapacity, 2 ∣ capacity) (scratchEven : 2 ∣ scratch)
    (even : ∀ action ∈ actions, 2 ∣ action.size) (state : State) :
    let start : Duplex Queue := create ringCapacity scratch
    let calls := (actAll (logged compute) (start, state, []) actions).2.2
    (∃ handed : List (List Frame × Nat),
      calls.map (fun call => call.input.toList) = handed.map (fun (frames, missing) =>
        interleaved (frames ++ List.replicate missing .silence)) ∧
      (handed.flatMap Prod.fst).Sublist (capturedFrames actions)) ∧
    ∀ call ∈ calls, ∀ index left right,
      call.input[2 * index]? = some left → call.input[2 * index + 1]? = some right →
      ⟨left, right⟩ ∈ capturedFrames actions ∨ (left = 0 ∧ right = 0) := by
  intro start calls
  have inFrames : start.InFrames := inFrames_create ringEven scratchEven
  have fresh : start.waiting = [] := waiting_create ringCapacity scratch
  have scratchEq : start.scratch.size = scratch := Array.size_replicate
  obtain ⟨last, runEq⟩ := actAll_logged compute start state [] actions
  have callsEq : calls = (start.deliveries actions).map (Delivery.call scratch) := by
    rw [scratchEq, List.nil_append] at runEq
    exact congrArg (fun run => run.2.2) runEq
  have inputEq : ∀ delivery ∈ start.deliveries actions,
      (delivery.call scratch).input.toList = interleaved (delivery.frames ++
        List.replicate (delivery.missing scratch) .silence) :=
    fun _ delivered => (inFrames.isWhole_of_mem even delivered).input_eq scratchEven
  have captured := inFrames.delivered_sublist fresh even
  rw [callsEq]
  refine ⟨⟨(start.deliveries actions).map
    (fun delivery => (delivery.frames, delivery.missing scratch)), ?_, ?_⟩, ?_⟩
  · rw [List.map_map, List.map_map]
    exact List.map_congr_left inputEq
  · rw [List.flatMap_map]
    exact captured
  · intro call member index left right leftEq rightEq
    obtain ⟨delivery, delivered, rfl⟩ := List.mem_map.mp member
    rw [← Array.getElem?_toList, inputEq delivery delivered] at leftEq rightEq
    rw [(getElem?_interleaved _ index).1] at leftEq
    rw [(getElem?_interleaved _ index).2] at rightEq
    obtain ⟨frame, frameEq, rfl⟩ := Option.map_eq_some_iff.mp leftEq
    rw [frameEq] at rightEq
    cases rightEq
    rcases List.mem_append.mp (List.mem_of_getElem? frameEq) with handed | silent
    · exact .inl (captured.subset (List.mem_flatMap.mpr ⟨delivery, delivered, handed⟩))
    · rw [List.eq_of_mem_replicate silent]
      exact .inr ⟨rfl, rfl⟩

/-- A ring that loses a frame and then runs dry, under a block that is longer than the scratch. -/
theorem channels_kept_overflow :
    let actions : List Action :=
      [.capture #[⟨1⟩, ⟨2⟩, ⟨3⟩, ⟨4⟩, ⟨5⟩, ⟨6⟩], .block 2, .block 8]
    let start : Duplex (RingBuffer Sample) := create (some 4) 4
    let calls := (actAll (logged (fun _ length state => (Array.replicate length 0, state)))
      (start, (), []) actions).2.2
    (∀ capacity ∈ some 4, 2 ∣ capacity) ∧ (∀ action ∈ actions, 2 ∣ action.size) ∧
      calls.map Call.input = [#[⟨1⟩, ⟨2⟩], #[⟨3⟩, ⟨4⟩, 0, 0]] ∧
      ∀ call ∈ calls, ∀ index left right,
        call.input[2 * index]? = some left → call.input[2 * index + 1]? = some right →
        ⟨left, right⟩ ∈ [(⟨⟨1⟩, ⟨2⟩⟩ : Frame), ⟨⟨3⟩, ⟨4⟩⟩, ⟨⟨5⟩, ⟨6⟩⟩] ∨
          (left = 0 ∧ right = 0) := by
  intro actions start calls
  have ringEven : ∀ capacity ∈ some 4, 2 ∣ capacity := by
    rintro _ ⟨⟩
    decide
  have even : ∀ action ∈ actions, 2 ∣ action.size := by decide
  refine ⟨ringEven, even, by decide +kernel, ?_⟩
  exact (channels_kept _ ringEven (by decide : 2 ∣ 4) even ()).2

end Duplex

end SignalPatch
