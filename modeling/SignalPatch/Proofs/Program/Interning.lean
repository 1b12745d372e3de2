import Mathlib.Data.List.Induction
import Mathlib.Data.List.Nodup
import SignalPatch.Program.Ports

/-!
# Interning names

A table that is built by mentioning names holds each of them once, in the order
of first mention and with the value zero.  Mentioning more names only adds
slots at the end, so the slot of a name never changes.
-/

namespace SignalPatch

namespace VariableStore

variable {store : VariableStore}

theorem name?_eq_names_getElem? (store : VariableStore) (slot : Nat) :
    store.name? slot = store.names[slot]? := by
  simp [name?, names, entries]

theorem get?_eq_entries_getElem? (store : VariableStore) (slot : Nat) :
    store.get? slot = (store.entries[slot]?).map Variable.value := by
  simp [get?, entries]

theorem size_eq_length_names (store : VariableStore) : store.size = store.names.length := by
  simp [size, names, entries]

/-- No two slots have one name, as the index leads to one of them only. -/
theorem Consistent.nodup_names (consistent : store.Consistent) : store.names.Nodup := by
  rw [List.nodup_iff_getElem?_ne_getElem?]
  intro first second before inside same
  have firstFound := (consistent store.names[first] first).mpr
    ((store.name?_eq_names_getElem? first).trans (List.getElem?_eq_getElem _))
  have secondFound := (consistent store.names[first] second).mpr
    ((store.name?_eq_names_getElem? second).trans
      (same.symm.trans (List.getElem?_eq_getElem _)))
  rw [firstFound] at secondFound
  exact Nat.ne_of_lt before (Option.some.inj secondFound)

theorem Consistent.find?_of_mem (consistent : store.Consistent) {name : String}
    (mentioned : name ∈ store.names) : store.find? name = some (store.names.idxOf name) := by
  rw [consistent, name?_eq_names_getElem?]
  exact List.getElem?_idxOf mentioned

theorem Consistent.find?_of_notMem (consistent : store.Consistent) {name : String}
    (unmentioned : name ∉ store.names) : store.find? name = none := by
  rw [Option.eq_none_iff_forall_ne_some]
  intro slot found
  rw [consistent, name?_eq_names_getElem?] at found
  exact unmentioned (List.mem_of_getElem? found)

theorem entries_add (store : VariableStore) (entry : Variable) :
    (store.add entry).entries = store.entries ++ [entry] := by
  simp [add, entries]

theorem names_add (store : VariableStore) (entry : Variable) :
    (store.add entry).names = store.names ++ [entry.name] := by
  rw [names, entries_add, List.map_append]
  rfl

/-- A name that was known keeps its slot, and no other name is added in front of it. -/
theorem names_prefix_intern (store : VariableStore) (name : String) :
    store.names <+: (store.intern name).2.names := by
  cases found : store.find? name with
  | some slot => simp [intern, found]
  | none => simp [intern, found, names_add]

/-- A name is found at the slot that it was given. -/
theorem find?_intern (store : VariableStore) (name : String) :
    (store.intern name).2.find? name = some (store.intern name).1 := by
  cases found : store.find? name with
  | some slot => simp [intern, found]
  | none => simp [intern, found, find?_add]

/-- A name that is found is found where it was, whatever else is mentioned. -/
theorem find?_intern_of_find? {name : String} {slot : Nat}
    (found : store.find? name = some slot) (other : String) :
    (store.intern other).2.find? name = some slot := by
  cases otherFound : store.find? other with
  | some slot => simpa [intern, otherFound] using found
  | none =>
      have different : other ≠ name := by
        rintro rfl
        rw [found] at otherFound
        cases otherFound
      simpa [intern, otherFound, find?_add, different] using found

theorem entries_set (store : VariableStore) (slot : Nat) (value : Sample) :
    (store.set slot value).entries =
      store.entries.modify slot (fun entry => ⟨entry.name, value⟩) := by
  simp [set, entries]

theorem names_set (store : VariableStore) (slot : Nat) (value : Sample) :
    (store.set slot value).names = store.names := by
  apply List.ext_getElem?
  intro other
  rw [← name?_eq_names_getElem?, ← name?_eq_names_getElem?, name?_set]

theorem get?_set (store : VariableStore) (slot index : Nat) (value : Sample) :
    (store.set slot value).get? index =
      (store.get? index).map (fun old => if slot = index then value else old) := by
  simp only [get?, set, Array.getElem?_modify]
  by_cases same : slot = index
  · subst same
    simp [Function.comp_def]
  · simp [same, Function.comp_def]

end VariableStore

namespace VariableTable

theorem entries_set (table : VariableTable) (slot : Nat) (value : Sample) :
    (table.set slot value).entries =
      table.entries.modify slot (fun entry => ⟨entry.name, value⟩) :=
  table.toVariableStore.entries_set slot value

@[simp]
theorem names_set (table : VariableTable) (slot : Nat) (value : Sample) :
    (table.set slot value).names = table.names :=
  table.toVariableStore.names_set slot value

theorem get?_set (table : VariableTable) (slot index : Nat) (value : Sample) :
    (table.set slot value).get? index =
      (table.get? index).map (fun old => if slot = index then value else old) :=
  table.toVariableStore.get?_set slot index value

theorem nodup_names (table : VariableTable) : table.names.Nodup :=
  table.consistent.nodup_names

theorem find?_of_mem {table : VariableTable} {name : String} (mentioned : name ∈ table.names) :
    table.find? name = some (table.names.idxOf name) :=
  table.consistent.find?_of_mem mentioned

theorem find?_of_notMem {table : VariableTable} {name : String}
    (unmentioned : name ∉ table.names) : table.find? name = none :=
  table.consistent.find?_of_notMem unmentioned

theorem find?_eq_none_iff {table : VariableTable} {name : String} :
    table.find? name = none ↔ name ∉ table.names := by
  refine ⟨fun unfound mentioned => ?_, find?_of_notMem⟩
  rw [find?_of_mem mentioned] at unfound
  cases unfound

theorem find?_eq_of_names {first second : VariableTable} (namesEq : second.names = first.names)
    (name : String) : second.find? name = first.find? name := by
  by_cases mentioned : name ∈ first.names
  · rw [find?_of_mem mentioned, find?_of_mem (namesEq ▸ mentioned), namesEq]
  · rw [find?_of_notMem mentioned, find?_of_notMem (namesEq ▸ mentioned)]

theorem names_intern (table : VariableTable) (name : String) :
    (table.intern name).2.names =
      if name ∈ table.names then table.names else table.names ++ [name] := by
  by_cases mentioned : name ∈ table.names
  · have found := find?_of_mem mentioned
    simp [intern, VariableStore.intern, found, mentioned]
  · have unfound := find?_of_notMem mentioned
    simp [intern, VariableStore.intern, unfound, VariableStore.names_add, mentioned]

theorem names_prefix_intern (table : VariableTable) (name : String) :
    table.names <+: (table.intern name).2.names :=
  table.toVariableStore.names_prefix_intern name

theorem mem_names_intern (table : VariableTable) (name : String) :
    name ∈ (table.intern name).2.names := by
  rw [names_intern]
  split
  · assumption
  · simp

/-- The slot of a name is where the name stands in the table behind. -/
theorem slot_intern (table : VariableTable) (name : String) :
    (table.intern name).1 = (table.intern name).2.names.idxOf name := by
  have found : (table.intern name).2.find? name = some (table.intern name).1 :=
    table.toVariableStore.find?_intern name
  rw [find?_of_mem (table.mem_names_intern name)] at found
  exact (Option.some.inj found).symm

/-- The table that mentions more names. -/
def mention (table : VariableTable) (mentioned : List String) : VariableTable :=
  mentioned.foldl (fun table name => (table.intern name).2) table

@[simp]
theorem mention_nil (table : VariableTable) : table.mention [] = table :=
  rfl

@[simp]
theorem mention_cons (table : VariableTable) (name : String) (others : List String) :
    table.mention (name :: others) = (table.intern name).2.mention others :=
  rfl

theorem mention_append (table : VariableTable) (first second : List String) :
    table.mention (first ++ second) = (table.mention first).mention second :=
  List.foldl_append

theorem names_prefix_mention (table : VariableTable) (mentioned : List String) :
    table.names <+: (table.mention mentioned).names := by
  induction mentioned generalizing table with
  | nil => exact List.prefix_refl _
  | cons name others ih => exact (names_prefix_intern table name).trans (ih _)

theorem mem_names_mention (table : VariableTable) (mentioned : List String) (name : String) :
    name ∈ (table.mention mentioned).names ↔ name ∈ table.names ∨ name ∈ mentioned := by
  induction mentioned generalizing table with
  | nil => simp
  | cons first others ih =>
      rw [mention_cons, ih, names_intern]
      split
      · rename_i present
        constructor
        · rintro (old | later)
          · exact Or.inl old
          · exact Or.inr (List.mem_cons_of_mem _ later)
        · rintro (old | here)
          · exact Or.inl old
          · rcases List.mem_cons.mp here with rfl | later
            · exact Or.inl present
            · exact Or.inr later
      · simp [or_assoc]

theorem mem_names_ofNames (mentioned : List String) (name : String) :
    name ∈ (ofNames mentioned).names ↔ name ∈ mentioned := by
  have noNames : empty.names = [] := rfl
  rw [show ofNames mentioned = empty.mention mentioned from rfl, mem_names_mention, noNames]
  simp

/-- The table with one more variable, unless it has one with the same name. -/
def extend (table : VariableTable) (entry : Variable) : VariableTable :=
  if unknown : table.find? entry.name = none then
    ⟨table.add entry, VariableStore.consistent_add table.consistent unknown⟩
  else table

/-- The table of variables with different names. -/
def ofEntries (entries : List Variable) : VariableTable :=
  entries.foldl extend empty

theorem entries_extend {table : VariableTable} {entry : Variable}
    (unmentioned : entry.name ∉ table.names) :
    (table.extend entry).entries = table.entries ++ [entry] := by
  have unknown := find?_of_notMem unmentioned
  simp [extend, unknown, VariableStore.entries_add]

theorem entries_ofEntries {entries : List Variable}
    (distinct : (entries.map Variable.name).Nodup) : (ofEntries entries).entries = entries := by
  induction entries using List.reverseRecOn with
  | nil => rfl
  | append_singleton earlier entry ih =>
      rw [List.map_append, List.nodup_append] at distinct
      obtain ⟨earlierDistinct, _, apart⟩ := distinct
      have earlierEq := ih earlierDistinct
      have unmentioned : entry.name ∉ (ofEntries earlier).names := by
        rw [VariableStore.names, earlierEq]
        intro member
        exact apart _ member _ (List.mem_singleton_self _) rfl
      rw [ofEntries, List.foldl_append]
      exact (entries_extend unmentioned).trans (congrArg (· ++ [entry]) earlierEq)

/-- Two tables with the same variables are the same. -/
theorem ext_entries {first second : VariableTable} (entriesEq : first.entries = second.entries) :
    first = second :=
  ext_slots (Array.toList_inj.mp entriesEq)

/-- The table of given names in which every variable has a given value. -/
def holding (names : List String) (value : String → Sample) : VariableTable :=
  ofEntries (names.map (fun name => ⟨name, value name⟩))

theorem entries_holding {names : List String} (distinct : names.Nodup)
    (value : String → Sample) :
    (holding names value).entries = names.map (fun name => ⟨name, value name⟩) := by
  apply entries_ofEntries
  rw [List.map_map]
  exact (List.map_id' names).symm ▸ distinct

theorem eq_holding_names {table : VariableTable} {value : String → Sample}
    (valuesEq : ∀ entry ∈ table.entries, entry.value = value entry.name) :
    table = holding table.names value := by
  apply ext_entries
  rw [entries_holding table.nodup_names, VariableStore.names, List.map_map]
  calc table.entries = table.entries.map id := (List.map_id _).symm
    _ = table.entries.map ((fun name => ⟨name, value name⟩) ∘ Variable.name) :=
        List.map_congr_left (fun entry member => by simp [← valuesEq entry member])

theorem zero_intern {table : VariableTable} (silent : ∀ entry ∈ table.entries, entry.value = 0)
    (name : String) : ∀ entry ∈ (table.intern name).2.entries, entry.value = 0 := by
  cases found : table.find? name with
  | some slot => simpa [intern, VariableStore.intern, found] using silent
  | none =>
      simp only [intern, VariableStore.intern, found, VariableStore.entries_add, List.mem_append,
        List.mem_singleton]
      rintro entry (old | rfl)
      · exact silent entry old
      · rfl

/-- Mentioned variables are zero. -/
theorem zero_ofNames (mentioned : List String) :
    ∀ entry ∈ (ofNames mentioned).entries, entry.value = 0 := by
  have general : ∀ table : VariableTable, (∀ entry ∈ table.entries, entry.value = 0) →
      ∀ entry ∈ (table.mention mentioned).entries, entry.value = 0 := by
    induction mentioned with
    | nil => exact fun table silent => silent
    | cons name others ih =>
        exact fun table silent => ih _ (zero_intern silent name)
  exact general empty (fun entry member => absurd member List.not_mem_nil)

theorem ofNames_eq_holding (mentioned : List String) :
    ofNames mentioned = holding (ofNames mentioned).names (fun _ => 0) :=
  eq_holding_names (zero_ofNames mentioned)

theorem entries_ofNames (mentioned : List String) :
    (ofNames mentioned).entries = (ofNames mentioned).names.map (fun name => ⟨name, 0⟩) := by
  rw [← entries_holding (nodup_names _), ← ofNames_eq_holding]

end VariableTable

end SignalPatch
