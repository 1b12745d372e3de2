import Std.Data.ExtTreeMap
import SignalPatch.Sample.Basic

/-!
# Variables

A patch keeps its values in numbered slots.  A name gets the next slot when it
is first mentioned and keeps it; instructions know slots only.  Which slot a name
has is looked up in an index of its own, which has to stay in step with the slots.
-/

namespace SignalPatch

/-- A named value. -/
structure Variable where
  name : String
  value : Sample
deriving DecidableEq

/-- Variables in slot order, and an index from names to slots. -/
structure VariableStore where
  slots : Array Variable
  index : Std.ExtTreeMap String Nat

namespace VariableStore

def empty : VariableStore :=
  ⟨#[], ∅⟩

def size (store : VariableStore) : Nat :=
  store.slots.size

def isEmpty (store : VariableStore) : Bool :=
  store.slots.isEmpty

def find? (store : VariableStore) (name : String) : Option Nat :=
  store.index[name]?

/-- One more slot, to which the index leads from the name of what it holds. -/
def add (store : VariableStore) (entry : Variable) : VariableStore :=
  ⟨store.slots.push entry, store.index.insert entry.name store.size⟩

/-- The slot of a name, and the store in which it has one; a new slot holds zero. -/
def intern (store : VariableStore) (name : String) : Nat × VariableStore :=
  match store.find? name with
  | some slot => (slot, store)
  | none => (store.size, store.add ⟨name, 0⟩)

def get? (store : VariableStore) (slot : Nat) : Option Sample :=
  (store.slots[slot]?).map Variable.value

def set (store : VariableStore) (slot : Nat) (value : Sample) : VariableStore :=
  { store with slots := store.slots.modify slot (fun entry => ⟨entry.name, value⟩) }

def name? (store : VariableStore) (slot : Nat) : Option String :=
  (store.slots[slot]?).map Variable.name

/-- The name of a slot, or a mark for a slot that does not exist. -/
def nameOrUnknown (store : VariableStore) (slot : Nat) : String :=
  (store.name? slot).getD "<unknown>"

/-- All variables in slot order. -/
def entries (store : VariableStore) : List Variable :=
  store.slots.toList

def names (store : VariableStore) : List String :=
  store.entries.map Variable.name

/-- The index leads from a name to a slot exactly if the slot has the name. -/
def Consistent (store : VariableStore) : Prop :=
  ∀ name slot, store.find? name = some slot ↔ store.name? slot = some name

theorem consistent_empty : empty.Consistent := by
  intro name slot
  simp [empty, find?, name?]

theorem name?_size (store : VariableStore) : store.name? store.size = none := by
  simp [name?, size]

theorem find?_add (store : VariableStore) (entry : Variable) (name : String) :
    (store.add entry).find? name =
      if entry.name = name then some store.size else store.find? name := by
  simp only [find?, add, Std.ExtTreeMap.getElem?_insert, Std.LawfulEqCmp.compare_eq_iff_eq]

theorem name?_add (store : VariableStore) (entry : Variable) (slot : Nat) :
    (store.add entry).name? slot =
      if slot = store.size then some entry.name else store.name? slot := by
  rw [name?, add, Array.getElem?_push, ← size, apply_ite (Option.map Variable.name)]
  rfl

/-- A new name may be added: no other slot has it, and no other name has the slot. -/
theorem consistent_add {store : VariableStore} (consistent : store.Consistent)
    {entry : Variable} (unknown : store.find? entry.name = none) :
    (store.add entry).Consistent := by
  intro name slot
  rw [find?_add, name?_add]
  by_cases here : entry.name = name
  · subst here
    have unnamed : store.name? slot ≠ some entry.name := by
      rw [Ne, ← consistent, unknown]
      simp
    by_cases last : slot = store.size
    · simp [last]
    · simp [last, Ne.symm last, unnamed]
  · by_cases last : slot = store.size
    · have unfound : store.find? name ≠ some slot := by
        rw [Ne, consistent, last, name?_size]
        simp
      simp [here, last, last ▸ unfound]
    · simpa [here, last] using consistent name slot

theorem consistent_intern {store : VariableStore} (consistent : store.Consistent)
    (name : String) : (store.intern name).2.Consistent := by
  cases found : store.find? name with
  | some slot => simpa [intern, found] using consistent
  | none =>
      have added : (store.add ⟨name, 0⟩).Consistent := consistent_add consistent found
      simpa [intern, found] using added

theorem name?_set (store : VariableStore) (slot : Nat) (value : Sample) (other : Nat) :
    (store.set slot value).name? other = store.name? other := by
  simp only [name?, set, Array.getElem?_modify]
  split
  · simp [Function.comp_def]
  · rfl

theorem consistent_set {store : VariableStore} (consistent : store.Consistent) (slot : Nat)
    (value : Sample) : (store.set slot value).Consistent := by
  intro name other
  rw [name?_set]
  exact consistent name other

end VariableStore

/-- The variables of a patch: slots with an index that is in step with them. -/
structure VariableTable extends VariableStore where
  consistent : toVariableStore.Consistent

namespace VariableTable

/-- As the index is in step with the slots, the slots determine the table. -/
theorem ext_slots {first second : VariableTable} (slotsEq : first.slots = second.slots) :
    first = second := by
  obtain ⟨⟨slots, firstIndex⟩, firstConsistent⟩ := first
  obtain ⟨⟨_, secondIndex⟩, secondConsistent⟩ := second
  cases slotsEq
  have indexEq : firstIndex = secondIndex := by
    apply Std.ExtTreeMap.ext_getElem?
    intro name
    apply Option.ext
    intro slot
    exact (firstConsistent name slot).trans (secondConsistent name slot).symm
  cases indexEq
  rfl

instance : DecidableEq VariableTable := fun first second =>
  decidable_of_iff (first.slots = second.slots) ⟨ext_slots, fun same => same ▸ rfl⟩

def empty : VariableTable :=
  ⟨.empty, VariableStore.consistent_empty⟩

/-- The slot of a name, and the table in which it has one. -/
def intern (table : VariableTable) (name : String) : Nat × VariableTable :=
  ((table.toVariableStore.intern name).1,
    ⟨(table.toVariableStore.intern name).2, VariableStore.consistent_intern table.consistent name⟩)

def ofNames (names : List String) : VariableTable :=
  names.foldl (fun table name => (table.intern name).2) empty

def set (table : VariableTable) (slot : Nat) (value : Sample) : VariableTable :=
  ⟨table.toVariableStore.set slot value, VariableStore.consistent_set table.consistent slot value⟩

end VariableTable

end SignalPatch
