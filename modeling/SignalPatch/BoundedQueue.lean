/-!
# Bounded queues

Captured samples and displayed frames wait in queues of a fixed capacity, which are
filled at one end and emptied at the other.  They are used through an interface, and
its laws are all that is relied on.  A buffer of items keeps these laws.
-/

namespace SignalPatch

/-- Queues of items that are made with a capacity. -/
class BoundedQueue (Queue : Type) (Item : outParam Type) where
  withCapacity : Nat → Queue
  capacity : Queue → Nat
  /-- How many items wait. -/
  occupied : Queue → Nat
  /-- Put in an item, if there is room for it, and tell whether there was. -/
  tryPush : Queue → Item → Bool × Queue
  /-- Put in as many leading items as there is room for, and tell how many. -/
  pushSlice : Queue → Array Item → Nat × Queue
  /-- Take out up to so many items. -/
  popSlice : Queue → Nat → Array Item × Queue
  /-- The items that wait, the oldest first. -/
  waiting : Queue → List Item

/-- Queues that pass on what there is room for, first in, first out. -/
class LawfulBoundedQueue (Queue : Type) (Item : outParam Type) [BoundedQueue Queue Item] :
    Prop where
  capacity_withCapacity (capacity : Nat) :
    BoundedQueue.capacity (BoundedQueue.withCapacity capacity : Queue) = capacity
  waiting_withCapacity (capacity : Nat) :
    BoundedQueue.waiting (BoundedQueue.withCapacity capacity : Queue) = []
  occupied_eq (queue : Queue) :
    BoundedQueue.occupied queue = (BoundedQueue.waiting queue).length
  pushed_iff (queue : Queue) (item : Item) :
    (BoundedQueue.tryPush queue item).1 = true ↔
      (BoundedQueue.waiting queue).length < BoundedQueue.capacity queue
  capacity_tryPush (queue : Queue) (item : Item) :
    BoundedQueue.capacity (BoundedQueue.tryPush queue item).2 = BoundedQueue.capacity queue
  waiting_tryPush (queue : Queue) (item : Item) :
    BoundedQueue.waiting (BoundedQueue.tryPush queue item).2 =
      if (BoundedQueue.waiting queue).length < BoundedQueue.capacity queue then
        BoundedQueue.waiting queue ++ [item]
      else BoundedQueue.waiting queue
  pushSlice_count (queue : Queue) (items : Array Item) :
    (BoundedQueue.pushSlice queue items).1 =
      min items.size (BoundedQueue.capacity queue - (BoundedQueue.waiting queue).length)
  capacity_pushSlice (queue : Queue) (items : Array Item) :
    BoundedQueue.capacity (BoundedQueue.pushSlice queue items).2 = BoundedQueue.capacity queue
  waiting_pushSlice (queue : Queue) (items : Array Item) :
    BoundedQueue.waiting (BoundedQueue.pushSlice queue items).2 =
      BoundedQueue.waiting queue ++ items.toList.take (BoundedQueue.pushSlice queue items).1
  popSlice_items (queue : Queue) (count : Nat) :
    (BoundedQueue.popSlice queue count).1.toList = (BoundedQueue.waiting queue).take count
  capacity_popSlice (queue : Queue) (count : Nat) :
    BoundedQueue.capacity (BoundedQueue.popSlice queue count).2 = BoundedQueue.capacity queue
  waiting_popSlice (queue : Queue) (count : Nat) :
    BoundedQueue.waiting (BoundedQueue.popSlice queue count).2 =
      (BoundedQueue.waiting queue).drop count

/-- A queue that keeps its items in an array, the oldest first. -/
structure RingBuffer (Item : Type) where
  capacity : Nat
  items : Array Item

namespace RingBuffer

variable {Item : Type}

def tryPush : RingBuffer Item → Item → Bool × RingBuffer Item
  | ⟨capacity, items⟩, item =>
      if items.size < capacity then (true, ⟨capacity, items.push item⟩)
      else (false, ⟨capacity, items⟩)

def pushSlice (buffer : RingBuffer Item) (items : Array Item) : Nat × RingBuffer Item :=
  let accepted := min items.size (buffer.capacity - buffer.items.size)
  (accepted, ⟨buffer.capacity, buffer.items ++ items.extract 0 accepted⟩)

def popSlice (buffer : RingBuffer Item) (count : Nat) : Array Item × RingBuffer Item :=
  (buffer.items.extract 0 count,
    ⟨buffer.capacity, buffer.items.extract count buffer.items.size⟩)

instance : BoundedQueue (RingBuffer Item) Item where
  withCapacity capacity := ⟨capacity, #[]⟩
  capacity := capacity
  occupied buffer := buffer.items.size
  tryPush := tryPush
  pushSlice := pushSlice
  popSlice := popSlice
  waiting buffer := buffer.items.toList

instance : LawfulBoundedQueue (RingBuffer Item) Item where
  capacity_withCapacity _ := rfl
  waiting_withCapacity _ := rfl
  occupied_eq _ := rfl
  pushed_iff buffer item := by
    simp only [BoundedQueue.tryPush, tryPush, BoundedQueue.waiting, BoundedQueue.capacity,
      Array.length_toList]
    split
    · simp [*]
    · simp [*]
  capacity_tryPush buffer item := by
    simp only [BoundedQueue.tryPush, tryPush, BoundedQueue.capacity]
    split
    · rfl
    · rfl
  waiting_tryPush buffer item := by
    simp only [BoundedQueue.tryPush, tryPush, BoundedQueue.waiting, BoundedQueue.capacity,
      Array.length_toList]
    split
    · exact Array.toList_push
    · rfl
  pushSlice_count _ _ := rfl
  capacity_pushSlice _ _ := rfl
  waiting_pushSlice buffer items := by
    simp [BoundedQueue.pushSlice, pushSlice, BoundedQueue.waiting]
  popSlice_items buffer count := by
    simp [BoundedQueue.popSlice, popSlice, BoundedQueue.waiting]
  capacity_popSlice _ _ := rfl
  waiting_popSlice buffer count := by
    simp [BoundedQueue.popSlice, popSlice, BoundedQueue.waiting, List.take_of_length_le]

end RingBuffer

end SignalPatch
