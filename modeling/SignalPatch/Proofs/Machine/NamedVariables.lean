import SignalPatch.Proofs.Machine.AbortedTick
import SignalPatch.Proofs.Machine.LoadedPatch

/-!
# Variables by name

A variable of a loaded patch is found by its name, whatever its slot.  As no name
has two slots, a write to the variable with one name leaves those with other names.
-/

namespace SignalPatch

namespace VariableTable

/-- The value of the variable with a name. -/
def lookup? (table : VariableTable) (name : String) : Option Sample :=
  (table.find? name).bind table.get?

theorem lookup?_of_mem {table : VariableTable} {name : String}
    (mentioned : name ∈ table.names) :
    table.lookup? name = table.get? (table.names.idxOf name) := by
  rw [lookup?, find?_of_mem mentioned, Option.bind_some]

theorem exists_lookup? {table : VariableTable} {name : String}
    (mentioned : name ∈ table.names) : ∃ value, table.lookup? name = some value := by
  have inside := List.idxOf_lt_length_of_mem mentioned
  rw [← VariableStore.size_eq_length_names] at inside
  exact ⟨_, by
    rw [lookup?_of_mem mentioned, VariableStore.get?, Array.getElem?_eq_getElem inside,
      Option.map_some]⟩

/-- A name is given the same value by two tables that agree at its slot. -/
theorem lookup?_eq_of_names {first second : VariableTable}
    (namesEq : second.names = first.names) {name : String}
    (valueEq : name ∈ first.names →
      second.get? (first.names.idxOf name) = first.get? (first.names.idxOf name)) :
    second.lookup? name = first.lookup? name := by
  rw [lookup?, lookup?, find?_eq_of_names namesEq]
  by_cases mentioned : name ∈ first.names
  · rw [find?_of_mem mentioned]
    exact valueEq mentioned
  · rw [find?_of_notMem mentioned]
    rfl

theorem lookup?_assign_self (table : VariableTable) (name : String) (value : Sample) :
    (Ports.assign table (table.find? name) value).lookup? name =
      (table.lookup? name).map (fun _ => value) := by
  rw [lookup?, lookup?, find?_eq_of_names (Ports.names_assign table _ value)]
  cases table.find? name with
  | none => rfl
  | some slot =>
      rw [Option.bind_some, Option.bind_some, Ports.assign, get?_set]
      simp

theorem lookup?_assign_other {name other : String} (different : other ≠ name)
    (table : VariableTable) (value : Sample) :
    (Ports.assign table (table.find? name) value).lookup? other = table.lookup? other := by
  refine lookup?_eq_of_names (Ports.names_assign table _ value) ?_
  intro mentioned
  refine Ports.get?_assign ?_ table value
  by_cases named : name ∈ table.names
  · rw [find?_of_mem named]
    intro same
    have slotsEq := List.mem_singleton.mp same
    exact different ((List.idxOf_inj mentioned).mp slotsEq)
  · rw [find?_of_notMem named]
    exact List.not_mem_nil

theorem names_setAll (table : VariableTable) (changes : List (Nat × Sample)) :
    (table.setAll changes).names = table.names := by
  induction changes generalizing table with
  | nil => rfl
  | cons change others ih => exact (ih _).trans (names_set _ _ _)

end VariableTable

theorem lastChange_eq_none {Value : Type} {changes : List (Nat × Value)} {index : Nat}
    (untouched : ∀ change ∈ changes, change.1 ≠ index) : lastChange changes index = none := by
  induction changes with
  | nil => rfl
  | cons change later ih =>
      have laterEq := ih (fun other member => untouched other (List.mem_cons_of_mem _ member))
      have elsewhere := untouched change (List.mem_cons_self ..)
      rw [lastChange, laterEq, if_neg elsewhere, Option.or_none]

theorem lastChange_append {Value : Type} (first second : List (Nat × Value)) (index : Nat) :
    lastChange (first ++ second) index =
      (lastChange second index).or (lastChange first index) := by
  induction first with
  | nil => exact Option.or_none.symm
  | cons change others ih =>
      simp only [List.cons_append, lastChange, ih]
      exact Option.or_assoc

/-- A run writes the slots of its write instructions only. -/
theorem Memory.write_mem_of_mem_writes {code : List Instruction} {memory : Memory}
    {change : Nat × Sample} (member : change ∈ writes code memory) :
    .write change.1 ∈ code := by
  induction code generalizing memory with
  | nil => cases member
  | cons instruction others ih =>
      simp only [writes] at member
      split at member
      · cases member
      · rcases List.mem_append.mp member with here | later
        · cases instruction with
          | write slot =>
              obtain ⟨value, _, rfl⟩ := List.mem_map.mp here
              exact List.mem_cons_self ..
          | operate | read | load | filter => cases here
        · exact List.mem_cons_of_mem _ (ih later)

namespace Port

/-- What an input frame binds: both channels, and the value in the middle between them. -/
def driven (frame : Frame) : List (String × Sample) :=
  [(input, (frame.left + frame.right) / 2), (inputLeft, frame.left), (inputRight, frame.right)]

theorem isReadOnly_of_driven {frame : Frame} {name : String} {value : Sample}
    (bound : (name, value) ∈ driven frame) : isReadOnly name = true := by
  simp only [driven, List.mem_cons, Prod.mk.injEq, List.not_mem_nil, or_false] at bound
  rcases bound with ⟨rfl, _⟩ | ⟨rfl, _⟩ | ⟨rfl, _⟩
  · decide
  · decide
  · decide

/-- The name of a slider. -/
def slider (index : Fin sliderCount) : String :=
  sliders[index]

theorem isReadOnly_slider (index : Fin sliderCount) : isReadOnly (slider index) = true := by
  have member : slider index ∈ sliders := Vector.getElem_mem index.isLt
  have found := Vector.contains_iff_mem.mpr member
  simp only [isReadOnly, found, Bool.or_true]

theorem slider_ne_inputs (index : Fin sliderCount) :
    slider index ≠ input ∧ slider index ≠ inputLeft ∧ slider index ≠ inputRight := by
  decide +revert

theorem slider_injective (first second : Fin sliderCount)
    (same : slider first = slider second) : first = second := by
  decide +revert

end Port

namespace Ports

/-- Binding an input frame is one assignment after the other. -/
theorem bindInputs_resolve (table : VariableTable) (frame : Frame) :
    (resolve table).bindInputs table frame =
      (Port.driven frame).foldl
        (fun table binding => assign table (table.find? binding.1) binding.2) table := by
  have leftEq := VariableTable.find?_eq_of_names
    (names_assign table (table.find? Port.input) ((frame.left + frame.right) / 2))
  simp only [Port.driven, List.foldl_cons, List.foldl_nil, bindInputs, resolve, Frame.mean_eq,
    leftEq]
  rw [VariableTable.find?_eq_of_names (names_assign _ _ frame.left), leftEq]

theorem lookup?_bindInputs_of_driven {table : VariableTable} {frame : Frame} {name : String}
    {value : Sample} (bound : (name, value) ∈ Port.driven frame)
    (mentioned : name ∈ table.names) :
    ((resolve table).bindInputs table frame).lookup? name = some value := by
  obtain ⟨old, oldEq⟩ := VariableTable.exists_lookup? mentioned
  rw [bindInputs_resolve]
  simp only [Port.driven, List.mem_cons, Prod.mk.injEq, List.not_mem_nil, or_false] at bound
  simp only [Port.driven, List.foldl_cons, List.foldl_nil]
  have leftNeMean : Port.inputLeft ≠ Port.input := by decide
  have rightNeMean : Port.inputRight ≠ Port.input := by decide
  have rightNeLeft : Port.inputRight ≠ Port.inputLeft := by decide
  rcases bound with ⟨rfl, rfl⟩ | ⟨rfl, rfl⟩ | ⟨rfl, rfl⟩
  · rw [VariableTable.lookup?_assign_other rightNeMean.symm,
      VariableTable.lookup?_assign_other leftNeMean.symm, VariableTable.lookup?_assign_self, oldEq]
    rfl
  · rw [VariableTable.lookup?_assign_other rightNeLeft.symm, VariableTable.lookup?_assign_self,
      VariableTable.lookup?_assign_other leftNeMean, oldEq]
    rfl
  · rw [VariableTable.lookup?_assign_self, VariableTable.lookup?_assign_other rightNeLeft,
      VariableTable.lookup?_assign_other rightNeMean, oldEq]
    rfl

theorem lookup?_bindInputs_other {name : String}
    (other : name ≠ Port.input ∧ name ≠ Port.inputLeft ∧ name ≠ Port.inputRight)
    (table : VariableTable) (frame : Frame) :
    ((resolve table).bindInputs table frame).lookup? name = table.lookup? name := by
  rw [bindInputs_resolve]
  simp only [Port.driven, List.foldl_cons, List.foldl_nil]
  rw [VariableTable.lookup?_assign_other other.2.2, VariableTable.lookup?_assign_other other.2.1,
    VariableTable.lookup?_assign_other other.1]

end Ports

end SignalPatch
