import Mathlib.Data.List.Induction
import SignalPatch.Proofs.Machine.Tick
import SignalPatch.Proofs.Program.Interning

/-!
# What is loaded together stays together

A machine keeps its program, its variables, its ports and its filter memories in
four places.  A load replaces all of them by those of one patch, and nothing else
that happens to a machine takes one of them away from the others: whatever has
been done, they belong to the patch that was loaded last.
-/

namespace SignalPatch

/-- The patch of a machine that has loaded none. -/
def Patch.empty : Patch :=
  ⟨.empty, .empty⟩

namespace VariableTable

theorem name?_of_find? {table : VariableTable} {name : String} {slot : Nat}
    (found : table.find? name = some slot) : table.name? slot = some name :=
  (table.consistent name slot).mp found

end VariableTable

namespace Port

/-- The names with a meaning outside of a patch. -/
def reserved : List String :=
  [input, inputLeft, inputRight, output, outputLeft, outputRight] ++ sliders.toList

end Port

namespace Ports

/-- All ports, each with its reserved name. -/
def bindings (ports : Ports) : List (String × Option Nat) :=
  [(Port.input, ports.input), (Port.inputLeft, ports.inputLeft),
    (Port.inputRight, ports.inputRight), (Port.output, ports.output),
    (Port.outputLeft, ports.outputLeft), (Port.outputRight, ports.outputRight)] ++
    (Port.sliders.zip ports.sliders).toList

theorem bindings_resolve (table : VariableTable) :
    (resolve table).bindings = Port.reserved.map (fun name => (name, table.find? name)) := by
  have slidersEq : (Port.sliders.zip (Port.sliders.map table.find?)).toList =
      Port.sliders.toList.map (fun name => (name, table.find? name)) := by
    rw [Vector.toList_zip, Vector.toList_map, List.zip_map_right]
    rfl
  simp only [bindings, resolve, slidersEq, Port.reserved, List.map_append]
  rfl

theorem resolve_empty : resolve .empty = unbound := by
  have noneFound : VariableTable.empty.find? = fun _ => none := by
    funext name
    exact VariableTable.find?_of_notMem List.not_mem_nil
  simp only [resolve, noneFound, Vector.map_const']
  rfl

/-- The ports of a table depend on its names only. -/
theorem resolve_eq_of_names {first second : VariableTable}
    (namesEq : first.names = second.names) : resolve first = resolve second := by
  have foundEq : first.find? = second.find? :=
    funext (VariableTable.find?_eq_of_names namesEq)
  simp only [resolve, foundEq]

end Ports

namespace Operation

/-- The patch that was loaded last in a run of operations. -/
def lastLoaded (operations : List Operation) : Patch :=
  (operations.filterMap loaded?).getLastD .empty

end Operation

namespace Machine

/-- Nothing was loaded between two states of a machine. -/
structure SamePatch (before after : Machine) : Prop where
  program_eq : after.program = before.program
  ports_eq : after.ports = before.ports
  layout : Memory.SameLayout before.memory after.memory

theorem SamePatch.refl (machine : Machine) : SamePatch machine machine :=
  ⟨rfl, rfl, Memory.SameLayout.refl _⟩

theorem SamePatch.trans {first second third : Machine} (left : SamePatch first second)
    (right : SamePatch second third) : SamePatch first third :=
  ⟨right.program_eq.trans left.program_eq, right.ports_eq.trans left.ports_eq,
    left.layout.trans right.layout⟩

/-- An event writes into what was loaded, but replaces nothing of it, unless it is a load. -/
theorem samePatch_react {event : Event} (loadsNothing : event.loaded? = none)
    (machine : Machine) : SamePatch machine (machine.react event) := by
  cases event with
  | load patch => cases loadsNothing
  | tick live =>
      obtain ⟨programEq, portsEq, _⟩ := machine.tick_keeps live
      exact ⟨programEq, portsEq, machine.layout_tick live⟩
  | setSlider index value =>
      simp only [react, setSlider]
      split
      · exact ⟨rfl, rfl, VariableTable.names_set _ _ _, rfl, rfl⟩
      · exact SamePatch.refl machine
  | decayLevels | setSource | setFileFrames | setRunState =>
      exact ⟨rfl, rfl, Memory.SameLayout.refl _⟩

theorem samePatch_reactAll {events : List Event}
    (loadNothing : ∀ event ∈ events, event.loaded? = none) (machine : Machine) :
    SamePatch machine (machine.reactAll events) := by
  induction events generalizing machine with
  | nil => exact SamePatch.refl machine
  | cons event others ih =>
      have first := samePatch_react (loadNothing event (List.mem_cons_self ..)) machine
      have rest := ih (fun other member => loadNothing other (List.mem_cons_of_mem _ member))
        (machine.react event)
      exact first.trans rest

/-- The program, the variables, the ports and the filter memories belong to one patch. -/
structure Carries (patch : Patch) (machine : Machine) : Prop where
  program_eq : machine.program = patch.program
  names_eq : machine.table.names = patch.table.names
  ports_eq : machine.ports = .resolve machine.table
  sites_eq : machine.memory.filters.size = machine.program.filterSites

theorem carries_create (config : EngineConfig) : (create config).Carries .empty :=
  ⟨rfl, rfl, Ports.resolve_empty.symm, rfl⟩

theorem carries_load (machine : Machine) (patch : Patch) :
    (machine.load patch).Carries patch :=
  ⟨rfl, rfl, rfl, Array.size_replicate ..⟩

theorem Carries.of_samePatch {patch : Patch} {before after : Machine}
    (carries : before.Carries patch) (same : SamePatch before after) : after.Carries patch := by
  have namesEq : after.table.names = before.table.names := same.layout.names_eq
  refine ⟨same.program_eq.trans carries.program_eq, namesEq.trans carries.names_eq, ?_, ?_⟩
  · rw [same.ports_eq, carries.ports_eq]
    exact Ports.resolve_eq_of_names namesEq.symm
  · rw [same.program_eq, ← carries.sites_eq]
    exact same.layout.sites_eq

end Machine

namespace VirtualMachine

theorem samePatch_perform {operation : Operation} (loadsNothing : operation.loaded? = none)
    (virtual : VirtualMachine) :
    Machine.SamePatch virtual.core.machine (virtual.perform operation).core.machine := by
  rw [machine_perform]
  refine Machine.samePatch_reactAll ?_ virtual.core.machine
  intro event member
  rw [(same_of_mem_events member).1, loadsNothing]

theorem carries_perform {patch : Patch} {virtual : VirtualMachine}
    (carries : virtual.core.machine.Carries patch) (operation : Operation) :
    (virtual.perform operation).core.machine.Carries (operation.loaded?.getD patch) := by
  cases loads : operation.loaded? with
  | none => exact carries.of_samePatch (samePatch_perform loads virtual)
  | some next =>
      cases operation with
      | load loadedPatch =>
          cases loads
          exact virtual.core.machine.carries_load next
      | tick | block | pull | setSlider | setSource | setFileFrames | start | stop | acquire
      | release | poison => cases loads

/-- A machine carries the patch that was loaded last. -/
theorem carries_performAll (config : EngineConfig) (operations : List Operation) :
    ((create config).performAll operations).core.machine.Carries
      (Operation.lastLoaded operations) := by
  induction operations using List.reverseRecOn with
  | nil => exact Machine.carries_create config
  | append_singleton earlier last ih =>
      have lastEq : Operation.lastLoaded (earlier ++ [last]) =
          last.loaded?.getD (Operation.lastLoaded earlier) := by
        cases loads : last.loaded? with
        | none => simp [Operation.lastLoaded, loads]
        | some patch => simp [Operation.lastLoaded, loads]
      rw [performAll_concat, lastEq]
      exact carries_perform ih last

/--
Whatever has been done with a machine since it was created, the program is the one
that was loaded last, the variables have the names of its table, every port is the
slot of the variable with the reserved name, if there is one, and there are as many
filter memories as the program asks for.
-/
theorem loaded_together (config : EngineConfig) (operations : List Operation) :
    let machine := ((create config).performAll operations).core.machine
    let patch := Operation.lastLoaded operations
    machine.program = patch.program ∧
      machine.table.names = patch.table.names ∧
      machine.ports = .resolve machine.table ∧
      (∀ name port, (name, port) ∈ machine.ports.bindings →
        (∀ slot, port = some slot → machine.table.name? slot = some name) ∧
          (port = none ↔ name ∉ machine.table.names)) ∧
      machine.memory.filters.size = machine.program.filterSites := by
  intro machine patch
  have carries : machine.Carries patch := carries_performAll config operations
  refine ⟨carries.program_eq, carries.names_eq, carries.ports_eq, ?_, carries.sites_eq⟩
  intro name port member
  rw [carries.ports_eq, Ports.bindings_resolve] at member
  obtain ⟨reservedName, _, pairEq⟩ := List.mem_map.mp member
  obtain ⟨rfl, rfl⟩ := Prod.mk.inj pairEq
  exact ⟨fun slot found => VariableTable.name?_of_find? found, VariableTable.find?_eq_none_iff⟩

end VirtualMachine

end SignalPatch
