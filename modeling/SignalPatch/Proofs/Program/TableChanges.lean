import SignalPatch.Proofs.Program.Interning

/-!
# Changes of a table

Slots and index are written apart from each other, and stay in step: whatever names are
mentioned and whatever slots are set, the index leads from a name to a slot exactly if the
slot has the name.  No name is held twice, and a name that has a slot gets no other one.
A slot that is set changes its own value and nothing else.
-/

namespace SignalPatch

/-- What is done with a table of variables. -/
inductive TableChange where
  | mention (name : String)
  | set (slot : Nat) (value : Sample)

namespace VariableStore

def change (store : VariableStore) : TableChange → VariableStore
  | .mention name => (store.intern name).2
  | .set slot value => store.set slot value

def changeAll (store : VariableStore) (changes : List TableChange) : VariableStore :=
  changes.foldl change store

theorem consistent_change {store : VariableStore} (consistent : store.Consistent)
    (change : TableChange) : (store.change change).Consistent := by
  cases change with
  | mention name => exact consistent_intern consistent name
  | set slot value => exact consistent_set consistent slot value

theorem consistent_changeAll {store : VariableStore} (consistent : store.Consistent)
    (changes : List TableChange) : (store.changeAll changes).Consistent := by
  induction changes generalizing store with
  | nil => exact consistent
  | cons change others ih => exact ih (consistent_change consistent change)

theorem find?_change {store : VariableStore} {name : String} {slot : Nat}
    (found : store.find? name = some slot) (change : TableChange) :
    (store.change change).find? name = some slot := by
  cases change with
  | mention other => exact find?_intern_of_find? found other
  | set => exact found

/-- The slot that a name is given is where the name is found from then on. -/
theorem find?_changeAll {store : VariableStore} {name : String} {slot : Nat}
    (found : store.find? name = some slot) (changes : List TableChange) :
    (store.changeAll changes).find? name = some slot := by
  induction changes generalizing store with
  | nil => exact found
  | cons change others ih => exact ih (find?_change found change)

end VariableStore

namespace VariableTable

def change (table : VariableTable) : TableChange → VariableTable
  | .mention name => (table.intern name).2
  | .set slot value => table.set slot value

def changeAll (table : VariableTable) (changes : List TableChange) : VariableTable :=
  changes.foldl change table

/-- A table goes through the changes of its slots and its index. -/
theorem toVariableStore_changeAll (table : VariableTable) (changes : List TableChange) :
    (table.changeAll changes).toVariableStore = table.toVariableStore.changeAll changes := by
  induction changes generalizing table with
  | nil => rfl
  | cons change others ih =>
      have changedEq : (table.change change).toVariableStore =
          table.toVariableStore.change change := by
        cases change <;> rfl
      exact (ih _).trans (congrArg (VariableStore.changeAll · others) changedEq)

end VariableTable

end SignalPatch
