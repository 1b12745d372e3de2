import Mathlib.Algebra.BigOperators.Fin
import Mathlib.Order.Bounds.Basic
import SignalPatch.Telemetry

/-!
# Frames lost at the taps

A tap loses a frame exactly if it holds as many frames as it has room for when the
frame comes.  All others reach its viewer once and in order, and every loss is
counted.  What one viewer reads makes no difference to the other.
-/

namespace SignalPatch

namespace Telemetry

theorem isLeast_capacityFor (requested : Nat) :
    IsLeast {capacity | max 1 requested ≤ capacity ∧ capacity.isPowerOfTwo}
      (capacityFor requested) := by
  unfold capacityFor
  split
  · rename_i small
    refine ⟨⟨by omega, 0, rfl⟩, ?_⟩
    rintro capacity ⟨enough, _⟩
    omega
  · rename_i large
    rw [Nat.one_shiftLeft]
    refine ⟨⟨?_, _, rfl⟩, ?_⟩
    · have below : requested - 1 < 2 ^ ((requested - 1).log2 + 1) := Nat.lt_log2_self
      omega
    · rintro capacity ⟨enough, exponent, rfl⟩
      have below : requested - 1 < 2 ^ exponent := by omega
      have logBelow : (requested - 1).log2 < exponent := (Nat.log2_lt (by omega)).mpr below
      exact Nat.pow_le_pow_right (by omega) logBelow

/-- There are two taps. -/
theorem countP_taps {Queue : Type} (telemetry : Telemetry Queue) (refuses : Queue → Bool) :
    telemetry.taps.countP refuses = ∑ tap : Tap, if refuses (telemetry.ring tap) then 1 else 0 := by
  obtain ⟨⟨⟨rings⟩, sizeEq⟩, dropped⟩ := telemetry
  match rings, sizeEq with
  | [first, second], sizeEq =>
      have sumEq : (∑ tap : Tap, if refuses (ring ⟨⟨⟨[first, second]⟩, sizeEq⟩, dropped⟩ tap)
          then 1 else 0) = (if refuses first then 1 else 0) + (if refuses second then 1 else 0) :=
        Fin.sum_univ_two _
      rw [sumEq, Nat.add_comm]
      simp [List.countP_cons]

/-- What the producer and the viewers of the taps can do. -/
inductive Action where
  | push (frame : Frame)
  | read (tap : Tap) (count : Nat)
  | readInto (tap : Tap) (buffer : Array Frame)

namespace Action

def pushed? : Action → Option Frame
  | push frame => some frame
  | read .. | readInto .. => none

/-- Whether an action is not a read at another tap. -/
def concerns (tap : Tap) : Action → Bool
  | push _ => true
  | read other _ | readInto other _ => other = tap

end Action

variable {Queue : Type} [BoundedQueue Queue Frame]

/-- A queue to which a frame was offered; a full one keeps what it holds. -/
def offer (queue : Queue) (frame : Frame) : Queue :=
  (BoundedQueue.tryPush queue frame).2

/-- What an action at the taps makes of the queue of one of them. -/
def behind (queue : Queue) (tap : Tap) : Action → Queue
  | .push frame => offer queue frame
  | .read other count =>
      if other = tap then (BoundedQueue.popSlice queue count).2 else queue
  | .readInto other buffer =>
      if other = tap then (BoundedQueue.popSlice queue buffer.size).2 else queue

/-- What a viewer is given. -/
inductive Reading where
  | frames (frames : Array Frame)
  | filled (count : Nat) (buffer : Array Frame)

def Reading.taken : Reading → List Frame
  | .frames taken => taken.toList
  | .filled count buffer => buffer.toList.take count

/-- A frame that comes to a tap, and how many frames the tap holds then. -/
structure Arrival where
  frame : Frame
  waiting : Nat

namespace Arrival

/-- The frames for which a tap of a given capacity has room when they come. -/
def fitting (capacity : Nat) (arrivals : List Arrival) : List Frame :=
  (arrivals.filter (fun arrival => arrival.waiting < capacity)).map frame

theorem fitting_append (capacity : Nat) (first second : List Arrival) :
    fitting capacity (first ++ second) = fitting capacity first ++ fitting capacity second := by
  simp [fitting]

def lost (capacity : Nat) (arrivals : List Arrival) : Nat :=
  arrivals.countP (fun arrival => capacity ≤ arrival.waiting)

theorem length_fitting_add_lost (capacity : Nat) (arrivals : List Arrival) :
    (fitting capacity arrivals).length + lost capacity arrivals = arrivals.length := by
  induction arrivals with
  | nil => rfl
  | cons arrival others ih =>
      by_cases room : arrival.waiting < capacity
      · simp [fitting, lost, room] at ih ⊢
        omega
      · have full : capacity ≤ arrival.waiting := by omega
        simp [fitting, lost, room, full] at ih ⊢
        omega

end Arrival

variable (telemetry : Telemetry Queue) (tap : Tap)

def act : Action → Telemetry Queue
  | .push frame => telemetry.push frame
  | .read tap count => (telemetry.read tap count).2
  | .readInto tap buffer => (telemetry.readInto tap buffer).2.2

def actAll (actions : List Action) : Telemetry Queue :=
  actions.foldl act telemetry

/-- The frames that a tap holds, the oldest first. -/
def held : List Frame :=
  BoundedQueue.waiting (telemetry.ring tap)

/-- What an action gives to the viewer of a tap. -/
def reading? : Action → Option Reading
  | .push _ => none
  | .read other count =>
      if other = tap then some (.frames (telemetry.read tap count).1) else none
  | .readInto other buffer =>
      if other = tap then
        some (.filled (telemetry.readInto tap buffer).1 (telemetry.readInto tap buffer).2.1)
      else none

def arrival? (action : Action) : Option Arrival :=
  action.pushed?.map (fun frame => ⟨frame, telemetry.available tap⟩)

/-- What the viewer of a tap is given in a run. -/
def readings : Telemetry Queue → List Action → List Reading
  | _, [] => []
  | telemetry, action :: others =>
      (telemetry.reading? tap action).toList ++ readings (telemetry.act action) others

def arrivals : Telemetry Queue → List Action → List Arrival
  | _, [] => []
  | telemetry, action :: others =>
      (telemetry.arrival? tap action).toList ++ arrivals (telemetry.act action) others

def returned (actions : List Action) : List Frame :=
  (readings tap telemetry actions).flatMap Reading.taken

theorem ring_read (other : Tap) (count : Nat) :
    (telemetry.read other count).2.ring tap =
      if other = tap then (BoundedQueue.popSlice (telemetry.ring tap) count).2
      else telemetry.ring tap := by
  by_cases same : other = tap
  · subst same
    simp [read, ring]
  · have apart : other.val ≠ tap.val := fun valuesEq => same (Fin.ext valuesEq)
    simp [read, ring, same, apart]

/-- A tap changes by what is pushed and by what is read from it, and by nothing else. -/
theorem ring_act (action : Action) :
    (telemetry.act action).ring tap = behind (telemetry.ring tap) tap action := by
  cases action with
  | push frame => simp [act, push, ring, behind, offer]
  | read other count => exact telemetry.ring_read tap other count
  | readInto other buffer => exact telemetry.ring_read tap other buffer.size

theorem map_frame_arrivals (actions : List Action) :
    (telemetry.arrivals tap actions).map Arrival.frame =
      actions.filterMap Action.pushed? := by
  induction actions generalizing telemetry with
  | nil => rfl
  | cons action others ih =>
      rw [arrivals, List.map_append, ih]
      cases action with
      | push => rfl
      | read | readInto => rfl

theorem reading?_eq_of_ring_eq {first second : Telemetry Queue}
    (same : first.ring tap = second.ring tap) (action : Action) :
    first.reading? tap action = second.reading? tap action := by
  cases action with
  | push frame => rfl
  | read other | readInto other =>
      by_cases own : other = tap
      · subst own
        simp only [reading?, read, readInto, same]
      · simp only [reading?, own, if_false]

theorem kept_of_not_concerns {action : Action} (elsewhere : action.concerns tap = false) :
    telemetry.reading? tap action = none ∧
      (telemetry.act action).ring tap = telemetry.ring tap := by
  rw [ring_act]
  cases action with
  | push frame => cases elsewhere
  | read other | readInto other =>
      have apart : other ≠ tap := of_decide_eq_false elsewhere
      exact ⟨if_neg apart, if_neg apart⟩

/-- What a viewer is given does not depend on the reads at another tap. -/
theorem readings_filter {first second : Telemetry Queue} (same : first.ring tap = second.ring tap)
    (actions : List Action) :
    first.readings tap (actions.filter (Action.concerns tap)) = second.readings tap actions := by
  induction actions generalizing first second with
  | nil => rfl
  | cons action others ih =>
      cases concerned : action.concerns tap with
      | true =>
          have sameBehind : (first.act action).ring tap = (second.act action).ring tap := by
            rw [ring_act, ring_act, same]
          rw [List.filter_cons_of_pos concerned, readings, readings,
            reading?_eq_of_ring_eq tap same, ih sameBehind]
      | false =>
          -- one run goes on alone here, and its tap stays like that of the other
          obtain ⟨nothing, kept⟩ := second.kept_of_not_concerns tap concerned
          rw [List.filter_cons_of_neg (by simp [concerned]), readings, nothing]
          exact ih (same.trans kept.symm)

variable [LawfulBoundedQueue Queue Frame]

theorem capacity_act (action : Action) :
    (telemetry.act action).capacity tap = telemetry.capacity tap := by
  rw [capacity, ring_act, capacity]
  cases action with
  | push frame => exact LawfulBoundedQueue.capacity_tryPush _ frame
  | read | readInto =>
      rw [behind]
      split
      · exact LawfulBoundedQueue.capacity_popSlice _ _
      · rfl

theorem available_eq : telemetry.available tap = (telemetry.held tap).length :=
  LawfulBoundedQueue.occupied_eq _

theorem held_push (frame : Frame) :
    (telemetry.act (.push frame)).held tap =
      if telemetry.available tap < telemetry.capacity tap then telemetry.held tap ++ [frame]
      else telemetry.held tap := by
  rw [available_eq, held, ring_act]
  exact LawfulBoundedQueue.waiting_tryPush _ frame

theorem read_items (count : Nat) :
    (telemetry.read tap count).1.toList = (telemetry.held tap).take count :=
  LawfulBoundedQueue.popSlice_items _ count

theorem size_read (count : Nat) :
    (telemetry.read tap count).1.size = min count (telemetry.available tap) := by
  rw [← Array.length_toList, read_items, List.length_take, available_eq]

/-- A buffer is filled from its front, and keeps what stands behind. -/
theorem readInto_items (buffer : Array Frame) :
    (telemetry.readInto tap buffer).1 = min buffer.size (telemetry.available tap) ∧
      (telemetry.readInto tap buffer).2.1.toList =
        (telemetry.held tap).take buffer.size ++
          buffer.toList.drop (min buffer.size (telemetry.available tap)) := by
  refine ⟨telemetry.size_read tap buffer.size, ?_⟩
  simp [readInto, size_read, read_items, List.take_of_length_le]

theorem held_read (other : Tap) (count : Nat) :
    telemetry.held tap =
      (if other = tap then (telemetry.held tap).take count else []) ++
        (telemetry.read other count).2.held tap := by
  rw [held, held, ring_read]
  split
  · rw [LawfulBoundedQueue.waiting_popSlice, List.take_append_drop]
  · rfl

/-- What a tap held and what it takes in is what it gives away and what it holds then. -/
theorem held_act (action : Action) :
    telemetry.held tap ++
        Arrival.fitting (telemetry.capacity tap) (telemetry.arrival? tap action).toList =
      (telemetry.reading? tap action).toList.flatMap Reading.taken ++
        (telemetry.act action).held tap := by
  cases action with
  | push frame =>
      rw [held_push]
      by_cases room : telemetry.available tap < telemetry.capacity tap
      · simp [arrival?, Action.pushed?, Arrival.fitting, reading?, room]
      · simp [arrival?, Action.pushed?, Arrival.fitting, reading?, room]
  | read other count =>
      -- nothing comes in with a read
      refine (List.append_nil _).trans ((telemetry.held_read tap other count).trans ?_)
      congr 1
      by_cases own : other = tap
      · subst own
        simp [reading?, read_items, Reading.taken]
      · simp [reading?, own]
  | readInto other buffer =>
      refine (List.append_nil _).trans ((telemetry.held_read tap other buffer.size).trans ?_)
      congr 1
      by_cases own : other = tap
      · subst own
        obtain ⟨countEq, bufferEq⟩ := telemetry.readInto_items other buffer
        have heldLength := telemetry.available_eq other
        have takenLength : ((telemetry.held other).take buffer.size).length =
            min buffer.size (telemetry.available other) := by
          rw [List.length_take, heldLength]
        simp only [reading?, if_true, Option.toList_some, List.flatMap_singleton, Reading.taken,
          countEq, bufferEq, ← takenLength, List.take_left]
      · simp [reading?, own]

/-- Everything that a tap has room for is read or held. -/
theorem returned_append_held (actions : List Action) :
    telemetry.returned tap actions ++ (telemetry.actAll actions).held tap =
      telemetry.held tap ++
        Arrival.fitting (telemetry.capacity tap) (telemetry.arrivals tap actions) := by
  induction actions generalizing telemetry with
  | nil => simp [returned, readings, arrivals, actAll, Arrival.fitting]
  | cons action others ih =>
      have rest := ih (telemetry.act action)
      have first := telemetry.held_act tap action
      rw [capacity_act] at rest
      rw [arrivals, Arrival.fitting_append, ← List.append_assoc, first, List.append_assoc, ← rest,
        returned, readings, List.flatMap_append, List.append_assoc]
      rfl

theorem dropped_act (action : Action) :
    (telemetry.act action).dropped = telemetry.dropped +
      ∑ tap : Tap, Arrival.lost (telemetry.capacity tap)
        (telemetry.arrival? tap action).toList := by
  cases action with
  | push frame =>
      have lostEq : ∀ tap : Tap,
          Arrival.lost (telemetry.capacity tap) (telemetry.arrival? tap (.push frame)).toList =
            if !(BoundedQueue.tryPush (telemetry.ring tap) frame).1 then 1 else 0 := by
        intro tap
        have pushed := LawfulBoundedQueue.pushed_iff (telemetry.ring tap) frame
        rw [← held, ← available_eq, ← capacity] at pushed
        cases pushedEq : (BoundedQueue.tryPush (telemetry.ring tap) frame).1 with
        | true =>
            have room := pushed.mp pushedEq
            simp [arrival?, Action.pushed?, Arrival.lost, room]
        | false =>
            have full : telemetry.capacity tap ≤ telemetry.available tap := by
              by_contra room
              rw [pushed.mpr (by omega)] at pushedEq
              cases pushedEq
            simp [arrival?, Action.pushed?, Arrival.lost, full]
      have countEq := telemetry.countP_taps
        (fun queue => !(BoundedQueue.tryPush queue frame).1)
      simp only [lostEq, ← countEq, act, push, Vector.countP_map]
      rfl
  | read | readInto => simp [act, read, readInto, arrival?, Action.pushed?, Arrival.lost]

theorem dropped_actAll (actions : List Action) :
    (telemetry.actAll actions).dropped = telemetry.dropped +
      ∑ tap : Tap, Arrival.lost (telemetry.capacity tap) (telemetry.arrivals tap actions) := by
  induction actions generalizing telemetry with
  | nil => simp [actAll, arrivals, Arrival.lost]
  | cons action others ih =>
      have rest := ih (telemetry.act action)
      rw [dropped_act] at rest
      simp only [capacity_act] at rest
      simp only [arrivals, Arrival.lost, List.countP_append, Finset.sum_add_distrib]
      rw [← Nat.add_assoc]
      exact rest

theorem capacity_actAll (actions : List Action) :
    (telemetry.actAll actions).capacity tap = telemetry.capacity tap := by
  induction actions generalizing telemetry with
  | nil => rfl
  | cons action others ih => exact (ih (telemetry.act action)).trans (capacity_act ..)

theorem withCapacity_capacity (requested : Nat) :
    (withCapacity requested : Telemetry Queue).capacity tap = capacityFor requested := by
  simp [withCapacity, capacity, ring, LawfulBoundedQueue.capacity_withCapacity]

theorem withCapacity_held (requested : Nat) :
    (withCapacity requested : Telemetry Queue).held tap = [] := by
  simp [withCapacity, held, ring, LawfulBoundedQueue.waiting_withCapacity]

/--
Whatever is pushed and read, the taps have the least power of two as capacity that is
enough.  What the viewer of a tap was given and what the tap still holds are the frames
for which it had room when they came, in order.  A viewer is given the oldest frames, as
many as there are of those it asks for, whatever is read at the other tap.  All other
frames are counted.
-/
theorem frames_accounted_for (requested : Nat) (actions : List Action) :
    let start : Telemetry Queue := withCapacity requested
    let after := start.actAll actions
    IsLeast {capacity | max 1 requested ≤ capacity ∧ capacity.isPowerOfTwo}
        (capacityFor requested) ∧
      (∀ tap, after.capacity tap = capacityFor requested ∧
        (start.arrivals tap actions).map Arrival.frame = actions.filterMap Action.pushed? ∧
        start.returned tap actions ++ after.held tap =
          Arrival.fitting (capacityFor requested) (start.arrivals tap actions) ∧
        start.readings tap (actions.filter (Action.concerns tap)) =
          start.readings tap actions ∧
        (∀ count, (after.read tap count).1.toList = (after.held tap).take count ∧
          (after.read tap count).1.size = min count (after.available tap)) ∧
        (∀ buffer, (after.readInto tap buffer).1 = min buffer.size (after.available tap) ∧
          (after.readInto tap buffer).2.1.toList =
            (after.held tap).take buffer.size ++
              buffer.toList.drop (min buffer.size (after.available tap)))) ∧
      after.dropped =
        ∑ tap : Tap, Arrival.lost (capacityFor requested) (start.arrivals tap actions) ∧
      2 * (actions.filterMap Action.pushed?).length =
        ∑ tap : Tap, ((start.returned tap actions).length + after.available tap) +
          after.dropped := by
  intro start after
  have fitting : ∀ tap, start.returned tap actions ++ after.held tap =
      Arrival.fitting (capacityFor requested) (start.arrivals tap actions) := by
    intro tap
    have whole := start.returned_append_held tap actions
    rwa [withCapacity_held, withCapacity_capacity] at whole
  have lost : after.dropped =
      ∑ tap : Tap, Arrival.lost (capacityFor requested) (start.arrivals tap actions) := by
    have counted := start.dropped_actAll actions
    simp only [start, withCapacity_capacity] at counted
    exact counted.trans (Nat.zero_add _)
  refine ⟨isLeast_capacityFor requested, ?_, lost, ?_⟩
  · intro tap
    refine ⟨?_, start.map_frame_arrivals tap actions, fitting tap, readings_filter tap rfl actions,
      ?_, ?_⟩
    · exact (start.capacity_actAll tap actions).trans (withCapacity_capacity tap requested)
    · exact fun count => ⟨after.read_items tap count, after.size_read tap count⟩
    · exact fun buffer => after.readInto_items tap buffer
  · -- at each tap, every pushed frame either fitted, and was read or is held, or was lost
    have atTap : ∀ tap : Tap, (actions.filterMap Action.pushed?).length =
        (start.returned tap actions).length + after.available tap +
          Arrival.lost (capacityFor requested) (start.arrivals tap actions) := by
      intro tap
      have heldEq : (after.held tap).length = after.available tap := (after.available_eq tap).symm
      rw [← heldEq, ← List.length_append, fitting, Arrival.length_fitting_add_lost,
        ← start.map_frame_arrivals tap actions, List.length_map]
    rw [lost, ← Finset.sum_add_distrib, ← Finset.sum_congr rfl (fun tap _ => atTap tap)]
    simp

/-- Taps with room for two frames lose the third, and one of them is read meanwhile. -/
theorem frames_accounted_for_overflow :
    let start : Telemetry (RingBuffer Frame) := withCapacity 2
    let actions : List Action := [.push (.mono 1), .push (.mono 2), .push (.mono 3), .read 0 1]
    let after := start.actAll actions
    start.returned 0 actions ++ after.held 0 = [.mono 1, .mono 2] ∧
      (after.read 1 5).1.toList = [.mono 1, .mono 2] ∧
      after.dropped = 2 := by
  intro start actions after
  obtain ⟨_, taps, droppedEq, _⟩ := @frames_accounted_for (RingBuffer Frame) _ _ 2 actions
  obtain ⟨_, _, returnedEq, _⟩ := taps 0
  obtain ⟨_, _, _, _, readEq, _⟩ := taps 1
  refine ⟨returnedEq.trans (by decide +kernel), ?_, droppedEq.trans (by decide +kernel)⟩
  exact (readEq 5).1.trans (by decide +kernel)

end Telemetry

end SignalPatch
