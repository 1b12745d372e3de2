import SignalPatch.Proofs.Language.OwnWrites
import SignalPatch.Proofs.Language.Simulation
import SignalPatch.Proofs.Machine.NamedVariables

/-!
# What is driven from outside

Sliders and input ports are variables of a patch that are written from outside.  A
compiled patch has no instruction that writes one of them, so a slider keeps what it
was set to, and an input port keeps what was bound to it, however a tick ends.
-/

namespace SignalPatch

theorem filterMap_cons_eq_append {Element Value : Type} (function : Element → Option Value)
    (first : Element) (others : List Element) :
    (first :: others).filterMap function =
      (function first).toList ++ others.filterMap function := by
  cases found : function first with
  | none => exact List.filterMap_cons_none found
  | some value => exact List.filterMap_cons_some found

/-- A pass over a patch leaves every variable that the patch may only read. -/
theorem Memory.lookup?_behind_run {patch : Patch} (ownOnly : patch.WritesOwnOnly)
    {memory : Memory} (namesEq : memory.table.names = patch.table.names) {name : String}
    (readOnly : Port.isReadOnly name = true) :
    (behind (run patch.program.instructions memory)).table.lookup? name =
      memory.table.lookup? name := by
  rw [(changes_of_run _ _).1]
  refine VariableTable.lookup?_eq_of_names (VariableTable.names_setAll _ _) ?_
  intro mentioned
  have untouched : ∀ change ∈ writes patch.program.instructions memory,
      change.1 ≠ memory.table.names.idxOf name := by
    intro change member same
    obtain ⟨target, targetMentioned, writable, slotEq⟩ :=
      ownOnly change.1 (write_mem_of_mem_writes member)
    -- no two names have one slot, so a write to this slot is a write to a read-only name
    rw [same, namesEq] at slotEq
    have named := (List.idxOf_inj (namesEq ▸ mentioned)).mp slotEq
    rw [named, writable] at readOnly
    cases readOnly
  rw [VariableTable.get?_setAll, lastChange_eq_none untouched]
  exact Option.map_id'

namespace Machine

variable {patch : Patch} {machine : Machine}

/-- Behind a tick, read-only variables are what the tick bound, or unchanged if it was idle. -/
theorem lookup?_tick (ownOnly : patch.WritesOwnOnly) (carries : machine.Carries patch)
    {name : String} (readOnly : Port.isReadOnly name = true) (live : Frame) :
    (machine.tick live).2.table.lookup? name =
      if machine.isIdle then machine.table.lookup? name
      else (machine.bound live).table.lookup? name := by
  rw [table, memory_tick]
  split
  · rfl
  · rw [verdict, carries.program_eq]
    refine Memory.lookup?_behind_run ownOnly ?_ readOnly
    exact (Ports.names_bindInputs _ _ _).trans carries.names_eq

theorem lookup?_tick_of_driven (ownOnly : patch.WritesOwnOnly)
    (carries : machine.Carries patch) {live : Frame} (active : machine.isIdle = false)
    {name : String} {value : Sample} (driven : (name, value) ∈ Port.driven (machine.heard live))
    (mentioned : name ∈ patch.table.names) :
    (machine.tick live).2.table.lookup? name = some value := by
  rw [lookup?_tick ownOnly carries (Port.isReadOnly_of_driven driven), active, bound,
    carries.ports_eq]
  exact Ports.lookup?_bindInputs_of_driven driven (carries.names_eq ▸ mentioned)

theorem lookup?_tick_slider (ownOnly : patch.WritesOwnOnly) (carries : machine.Carries patch)
    (index : Fin Port.sliderCount) (live : Frame) :
    (machine.tick live).2.table.lookup? (Port.slider index) =
      machine.table.lookup? (Port.slider index) := by
  rw [lookup?_tick ownOnly carries (Port.isReadOnly_slider index)]
  split
  · rfl
  · rw [bound, carries.ports_eq]
    exact Ports.lookup?_bindInputs_other (Port.slider_ne_inputs index) _ _

/-- Setting a slider is an assignment to the variable with its name. -/
theorem setSlider_eq (portsEq : machine.ports = .resolve machine.table)
    (index : Fin Port.sliderCount) (value : Sample) :
    machine.setSlider index value =
      let port := machine.table.find? (Port.slider index)
      { machine with
        memory := { machine.memory with table := Ports.assign machine.table port value } } := by
  have portEq : machine.ports.sliders[index.val]? =
      some (machine.table.find? (Port.slider index)) := by
    rw [portsEq]
    simp [Ports.resolve, Port.slider]
  rw [setSlider, portEq]
  cases machine.table.find? (Port.slider index) with
  | none => rfl
  | some slot => rfl

theorem setSlider_of_unbound (portsEq : machine.ports = .resolve machine.table) {index : Nat}
    (unbound : ∀ inside : index < Port.sliderCount,
      Port.slider ⟨index, inside⟩ ∉ machine.table.names) (value : Sample) :
    machine.setSlider index value = machine := by
  by_cases inside : index < Port.sliderCount
  · have noneFound := VariableTable.find?_of_notMem (unbound inside)
    rw [machine.setSlider_eq portsEq ⟨index, inside⟩]
    simp only [noneFound]
    rfl
  · have noPort : machine.ports.sliders[index]? = none := by
      simp [Nat.le_of_not_lt inside]
    rw [setSlider, noPort]

/-- What changes of the sliders make of what one of them holds. -/
def afterSettings (settings : List (Nat × Sample)) (index : Nat) (held : Option Sample) :
    Option Sample :=
  held.map (fun old => (lastChange settings index).getD old)

theorem afterSettings_nil (index : Nat) (held : Option Sample) :
    afterSettings [] index held = held :=
  Option.map_id'

theorem afterSettings_append (first second : List (Nat × Sample)) (index : Nat)
    (held : Option Sample) :
    afterSettings (first ++ second) index held =
      afterSettings second index (afterSettings first index held) := by
  rw [afterSettings, afterSettings, afterSettings, Option.map_map]
  congr 1
  funext old
  rw [lastChange_append, Function.comp_apply]
  cases lastChange second index with
  | none => rfl
  | some latest => rfl

/-- Of all events but a load, only a setting of a slider changes what the slider holds. -/
theorem lookup?_react_slider (ownOnly : patch.WritesOwnOnly) (carries : machine.Carries patch)
    {event : Event} (loadsNothing : event.loaded? = none) (index : Fin Port.sliderCount) :
    (machine.react event).table.lookup? (Port.slider index) =
      afterSettings event.setting?.toList index (machine.table.lookup? (Port.slider index)) := by
  cases event with
  | load patch => cases loadsNothing
  | tick live =>
      rw [react, lookup?_tick_slider ownOnly carries index live]
      exact (afterSettings_nil _ _).symm
  | decayLevels | setSource | setFileFrames | setRunState =>
      exact (afterSettings_nil _ _).symm
  | setSlider place value =>
      simp only [react, Event.setting?, Option.toList_some, afterSettings, lastChange,
        Option.none_or]
      -- a setting of this slider, of another one, or of none
      by_cases inside : place < Port.sliderCount
      · have assigned := setSlider_eq carries.ports_eq ⟨place, inside⟩ value
        rw [assigned]
        by_cases same : place = index
        · subst same
          rw [if_pos rfl]
          exact VariableTable.lookup?_assign_self machine.table _ value
        · have different : Port.slider index ≠ Port.slider ⟨place, inside⟩ := by
            intro namesEq
            have indexEq := Port.slider_injective _ _ namesEq
            exact same (congrArg Fin.val indexEq).symm
          rw [if_neg same]
          exact (VariableTable.lookup?_assign_other different machine.table value).trans
            Option.map_id'.symm
      · have different : place ≠ index := by
          have indexInside := index.isLt
          omega
        have noSlider : ∀ placeInside : place < Port.sliderCount,
            Port.slider ⟨place, placeInside⟩ ∉ machine.table.names :=
          fun placeInside => absurd placeInside inside
        rw [setSlider_of_unbound carries.ports_eq noSlider, if_neg different]
        exact Option.map_id'.symm

theorem lookup?_reactAll_slider (ownOnly : patch.WritesOwnOnly)
    (carries : machine.Carries patch) {events : List Event}
    (loadNothing : ∀ event ∈ events, event.loaded? = none) (index : Fin Port.sliderCount) :
    (machine.reactAll events).table.lookup? (Port.slider index) =
      afterSettings (events.filterMap Event.setting?) index
        (machine.table.lookup? (Port.slider index)) := by
  induction events generalizing machine with
  | nil => exact (afterSettings_nil _ _).symm
  | cons event others ih =>
      have loadsNothing := loadNothing event (List.mem_cons_self ..)
      have stillCarries := carries.of_samePatch (samePatch_react loadsNothing machine)
      rw [filterMap_cons_eq_append, afterSettings_append,
        ← lookup?_react_slider ownOnly carries loadsNothing index]
      exact ih stillCarries (fun other member => loadNothing other (List.mem_cons_of_mem _ member))

end Machine

/-- The variables of a compiled patch are zero before it runs. -/
theorem Patch.lookup?_of_compile {text : String} {patch : Patch}
    (compiled : compile text = .ok patch) {name : String}
    (mentioned : name ∈ patch.table.names) : patch.table.lookup? name = some 0 := by
  obtain ⟨_, _, assembled⟩ := compile_eq_ok compiled
  obtain ⟨_, _, _, tableEq⟩ := Patch.ofStatements_eq_ok assembled
  have zero := VariableTable.get?_holding patch.table.nodup_names mentioned (fun _ => 0)
  rw [VariableTable.lookup?_of_mem mentioned]
  rw [tableEq] at zero ⊢
  rw [← VariableTable.ofNames_eq_holding] at zero
  exact zero

namespace Operation

/-- What a slider was set to last, zero if it never was. -/
def lastSetting (operations : List Operation) (index : Nat) : Sample :=
  (lastChange (operations.filterMap setting?) index).getD 0

end Operation

namespace VirtualMachine

variable {patch : Patch} {virtual : VirtualMachine}

theorem settings_of_events (virtual : VirtualMachine) (operation : Operation) :
    (virtual.events operation).filterMap Event.setting? = operation.setting?.toList := by
  cases set : operation.setting? with
  | none =>
      refine List.filterMap_eq_nil_iff.mpr ?_
      intro event member
      exact (same_of_mem_events member).2.trans set
  | some setting =>
      cases operation with
      | setSlider index value =>
          cases set
          rfl
      | load | tick | block | pull | setSource | setFileFrames | start | stop | acquire
      | release | poison => cases set

theorem carries_performAll_of_unloaded (carries : virtual.core.machine.Carries patch)
    {operations : List Operation}
    (loadNothing : ∀ operation ∈ operations, operation.loaded? = none) :
    (virtual.performAll operations).core.machine.Carries patch := by
  induction operations generalizing virtual with
  | nil => exact carries
  | cons operation others ih =>
      have stillCarries := carries_perform carries operation
      rw [loadNothing operation (List.mem_cons_self ..)] at stillCarries
      exact ih stillCarries (fun other member => loadNothing other (List.mem_cons_of_mem _ member))

theorem lookup?_performAll_slider (ownOnly : patch.WritesOwnOnly)
    (carries : virtual.core.machine.Carries patch) {operations : List Operation}
    (loadNothing : ∀ operation ∈ operations, operation.loaded? = none)
    (index : Fin Port.sliderCount) :
    (virtual.performAll operations).core.machine.table.lookup? (Port.slider index) =
      Machine.afterSettings (operations.filterMap Operation.setting?) index
        (virtual.core.machine.table.lookup? (Port.slider index)) := by
  induction operations using List.reverseRecOn with
  | nil => exact (Machine.afterSettings_nil _ _).symm
  | append_singleton earlier last ih =>
      have earlierLoad := fun operation member =>
        loadNothing operation (List.mem_append_left [last] member)
      have lastLoads := loadNothing last (List.mem_append_right _ (List.mem_singleton_self _))
      have eventsLoad : ∀ event ∈ (virtual.performAll earlier).events last,
          event.loaded? = none :=
        fun event member => (same_of_mem_events member).1.trans lastLoads
      have reached := carries_performAll_of_unloaded carries earlierLoad
      rw [performAll_concat, machine_perform,
        Machine.lookup?_reactAll_slider ownOnly reached eventsLoad, settings_of_events,
        ih earlierLoad, ← Machine.afterSettings_append, List.filterMap_append,
        filterMap_cons_eq_append, List.filterMap_nil, List.append_nil]

/--
As long as no other patch is loaded, a patch never changes what it is given from
outside.  A slider that it mentions holds what it was set to last, or zero.  Behind
a tick that computes, aborted or not, the input ports that it mentions hold what
the tick heard.  Setting a slider that it does not mention, or one that does not
exist, changes nothing at all.
-/
theorem driven_from_outside {text : String} (compiled : compile text = .ok patch)
    (before : VirtualMachine) {operations : List Operation}
    (loadNothing : ∀ operation ∈ operations, operation.loaded? = none) :
    let virtual := (before.perform (.load patch)).performAll operations
    (∀ index : Fin Port.sliderCount, Port.slider index ∈ patch.table.names →
      virtual.core.machine.table.lookup? (Port.slider index) =
        some (Operation.lastSetting operations index)) ∧
    (∀ (operation : Operation) (earlier : List Event) (live : Frame) (later : List Event),
      operation.loaded? = none → virtual.events operation = earlier ++ .tick live :: later →
      let reached := virtual.core.machine.reactAll earlier
      reached.runState = .running → patch.program.isEmpty = false →
      ∀ name value, (name, value) ∈ Port.driven (reached.heard live) →
        name ∈ patch.table.names → (reached.tick live).2.table.lookup? name = some value) ∧
    (∀ index value,
      (∀ inside : index < Port.sliderCount,
        Port.slider ⟨index, inside⟩ ∉ patch.table.names) →
      virtual.perform (.setSlider index value) = virtual) := by
  intro virtual
  have ownOnly := Patch.writesOwnOnly_of_compile compiled
  have loaded := before.core.machine.carries_load patch
  have carries : virtual.core.machine.Carries patch :=
    carries_performAll_of_unloaded loaded loadNothing
  refine ⟨?_, ?_, ?_⟩
  · intro index mentioned
    have zero : (before.perform (.load patch)).core.machine.table.lookup? (Port.slider index) =
        some 0 := Patch.lookup?_of_compile compiled mentioned
    rw [lookup?_performAll_slider ownOnly loaded loadNothing index, zero]
    rfl
  · intro operation earlier live later loadsNothing eventsEq reached running nonempty name value
      driven mentioned
    have earlierLoad : ∀ event ∈ earlier, event.loaded? = none := by
      intro event member
      have inOperation : event ∈ virtual.events operation := by
        rw [eventsEq]
        exact List.mem_append_left _ member
      exact (same_of_mem_events inOperation).1.trans loadsNothing
    have reachedCarries : reached.Carries patch :=
      carries.of_samePatch (Machine.samePatch_reactAll earlierLoad _)
    have active : reached.isIdle = false :=
      Machine.isIdle_eq_false_iff.mpr ⟨running, reachedCarries.program_eq ▸ nonempty⟩
    exact Machine.lookup?_tick_of_driven ownOnly reachedCarries active driven mentioned
  · intro index value unmentioned
    have unchanged : virtual.core.machine.setSlider index value = virtual.core.machine := by
      refine Machine.setSlider_of_unbound carries.ports_eq ?_ value
      rw [carries.names_eq]
      exact unmentioned
    simp only [perform, control, Core.setSlider, Core.control, unchanged]

def scaledInput : Patch :=
  ⟨⟨[.read 1, .read 2, .operate .multiply, .write 0], 0⟩, .ofNames ["out", "in", "slider1"]⟩

/-- A patch in which one slider scales the input, set once and started. -/
theorem driven_scaledInput :
    compile "out = in * slider1" = .ok scaledInput ∧
      let operations := [.setSlider 0 0.5, .setSlider 7 0.25, .start (.ok ())]
      let virtual := ((create .standard).perform (.load scaledInput)).performAll operations
      virtual.core.machine.table.lookup? "slider1" = some 0.5 ∧
        (virtual.core.machine.tick ⟨1, 0⟩).2.table.lookup? "in" = some ((1 + 0) / 2) ∧
        virtual.perform (.setSlider 3 1) = virtual := by
  have compiled : compile "out = in * slider1" = .ok scaledInput := by decide +kernel
  refine ⟨compiled, ?_⟩
  intro operations virtual
  have loadNothing : ∀ operation ∈ operations, operation.loaded? = none := by
    simp [operations, Operation.loaded?]
  obtain ⟨sliders, inputs, unmentioned⟩ :=
    driven_from_outside compiled (create .standard) loadNothing
  have noFourth : "slider4" ∉ scaledInput.table.names := by decide +kernel
  refine ⟨sliders 0 (by decide +kernel), ?_, unmentioned 3 1 (fun _ => noFourth)⟩
  have heardEq : virtual.core.machine.heard ⟨1, 0⟩ = ⟨1, 0⟩ := by decide +kernel
  have driven : ("in", (1 + 0) / 2) ∈ Port.driven (virtual.core.machine.heard ⟨1, 0⟩) := by
    rw [heardEq]
    exact List.mem_cons_self ..
  exact inputs (.tick ⟨1, 0⟩) [] ⟨1, 0⟩ [] rfl rfl rfl rfl "in" _ driven (by decide +kernel)

end VirtualMachine

end SignalPatch
