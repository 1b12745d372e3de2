import SignalPatch.Control.Dispatch
import SignalPatch.Proofs.Machine.NamedVariables

/-!
# What control packets do

A packet acts as its messages do, one after the other.  What a message asks for is decided
by the first mapping with its address alone.  Nothing but the values of the sliders that the
patch mentions and the selected source is within reach of any packet.
-/

namespace SignalPatch

namespace Argument

/-- The sample that an argument stands for where a slider is set. -/
inductive Counts : Argument → Sample → Prop
  | float (value : Sample) : Counts (.float value) value
  | double (value : Float) : Counts (.double value) (.ofDouble value)
  | int (value : Int32) : Counts (.int value) (.ofNumber value.toFloat32)

/-- The source that an argument tells by its name or its number. -/
inductive Tells : Argument → SourceKind → Prop
  | name (kind : SourceKind) : Tells (.string kind.name) kind
  | number {number : Int32} {index : Nat} {kind : SourceKind} (numberEq : number.toInt = index)
      (kindEq : SourceKind.all[index]? = some kind) : Tells (.int number) kind

end Argument

/-- The first mapping with an address has a target. -/
def Targets (mappings : List ControlMapping) (address : String) (target : ControlTarget) : Prop :=
  ∃ before after, mappings = before ++ ⟨address, target⟩ :: after ∧
    ∀ mapping ∈ before, mapping.address ≠ address

namespace ControlMessage

/-- The change that a message asks for: only its first argument counts. -/
inductive AsksFor (mappings : List ControlMapping) (message : ControlMessage) :
    ControlEvent → Prop
  | slider {index : Nat} {argument : Argument} {others : List Argument} {value : Sample}
      (targets : Targets mappings message.address (.slider index)) (exists_slider : index < 4)
      (argumentsEq : message.arguments = argument :: others) (counts : argument.Counts value) :
      AsksFor mappings message (.setSlider index value)
  | source {argument : Argument} {others : List Argument} {kind : SourceKind}
      (targets : Targets mappings message.address .source)
      (argumentsEq : message.arguments = argument :: others) (tells : argument.Tells kind) :
      AsksFor mappings message (.setSource kind)

end ControlMessage

namespace SourceKind

theorem ofName?_name (kind : SourceKind) : ofName? kind.name = some kind := by
  cases kind <;> rfl

theorem name_of_ofName? {name : String} {kind : SourceKind} (found : ofName? name = some kind) :
    kind.name = name :=
  beq_iff_eq.mp (List.find?_some (p := fun kind : SourceKind => kind.name == name) found)

end SourceKind

theorem Targets.find?_eq {mappings : List ControlMapping} {address : String}
    {target : ControlTarget} (targets : Targets mappings address target) :
    mappings.find? (fun mapping => mapping.address == address) = some ⟨address, target⟩ := by
  obtain ⟨before, after, mappingsEq, others⟩ := targets
  refine List.find?_eq_some_iff_append.mpr ⟨beq_self_eq_true _, before, after, mappingsEq, ?_⟩
  intro mapping member
  simpa using others mapping member

theorem targets_of_find? {mappings : List ControlMapping} {address own : String}
    {target : ControlTarget}
    (found : mappings.find? (fun mapping => mapping.address == address) = some ⟨own, target⟩) :
    Targets mappings address target := by
  obtain ⟨same, before, after, mappingsEq, others⟩ := List.find?_eq_some_iff_append.mp found
  obtain rfl : own = address := eq_of_beq same
  refine ⟨before, after, mappingsEq, ?_⟩
  intro mapping member
  simpa using others mapping member

namespace ControlMessage

variable {message : ControlMessage}

theorem sample?_eq_some_iff {value : Sample} :
    message.sample? = some value ↔
      ∃ argument others, message.arguments = argument :: others ∧ argument.Counts value := by
  rw [sample?]
  constructor
  · intro found
    split at found
    · rename_i argumentsEq
      cases found
      exact ⟨_, _, argumentsEq, .float _⟩
    · rename_i argumentsEq
      cases found
      exact ⟨_, _, argumentsEq, .double _⟩
    · rename_i argumentsEq
      cases found
      exact ⟨_, _, argumentsEq, .int _⟩
    · cases found
  · rintro ⟨argument, others, argumentsEq, counts⟩
    rw [argumentsEq]
    cases counts with
    | float | double | int => rfl

/-- The index of a source is a number that is not negative. -/
theorem sourceAt_eq_some_iff {number : Int32} {kind : SourceKind} :
    (if number < 0 then none else SourceKind.all[number.toInt.toNat]?) = some kind ↔
      ∃ index : Nat, number.toInt = index ∧ SourceKind.all[index]? = some kind := by
  simp only [Int32.lt_iff_toInt_lt, Int32.toInt_zero]
  split
  · rename_i negative
    constructor
    · intro found
      cases found
    · rintro ⟨index, numberEq, _⟩
      omega
  · rename_i enough
    constructor
    · intro found
      exact ⟨_, by omega, found⟩
    · rintro ⟨index, numberEq, found⟩
      rw [numberEq]
      exact found

theorem source?_eq_some_iff {kind : SourceKind} :
    message.source? = some kind ↔
      ∃ argument others, message.arguments = argument :: others ∧ argument.Tells kind := by
  rw [source?]
  constructor
  · intro found
    split at found
    · rename_i argumentsEq
      obtain rfl := SourceKind.name_of_ofName? found
      exact ⟨_, _, argumentsEq, .name kind⟩
    · rename_i argumentsEq
      obtain ⟨index, numberEq, kindEq⟩ := sourceAt_eq_some_iff.mp found
      exact ⟨_, _, argumentsEq, .number numberEq kindEq⟩
    · cases found
  · rintro ⟨argument, others, argumentsEq, tells⟩
    rw [argumentsEq]
    cases tells with
    | name => exact SourceKind.ofName?_name kind
    | number numberEq kindEq => exact sourceAt_eq_some_iff.mpr ⟨_, numberEq, kindEq⟩

theorem event?_eq_some_iff {mappings : List ControlMapping} {event : ControlEvent} :
    message.event? mappings = some event ↔ message.AsksFor mappings event := by
  rw [event?]
  constructor
  · intro found
    split at found
    · cases found
    · rename_i mappingEq
      have targets := targets_of_find? mappingEq
      split at found
      · rename_i inside
        obtain ⟨value, valueEq, rfl⟩ := Option.map_eq_some_iff.mp found
        obtain ⟨argument, others, argumentsEq, counts⟩ := sample?_eq_some_iff.mp valueEq
        exact .slider targets inside argumentsEq counts
      · cases found
    · rename_i mappingEq
      have targets := targets_of_find? mappingEq
      obtain ⟨kind, kindEq, rfl⟩ := Option.map_eq_some_iff.mp found
      obtain ⟨argument, others, argumentsEq, tells⟩ := source?_eq_some_iff.mp kindEq
      exact .source targets argumentsEq tells
  · intro asks
    cases asks with
    | slider targets inside argumentsEq counts =>
        have valueEq := sample?_eq_some_iff.mpr ⟨_, _, argumentsEq, counts⟩
        simp only [targets.find?_eq]
        rw [if_pos inside, valueEq]
        rfl
    | source targets argumentsEq tells =>
        have kindEq := source?_eq_some_iff.mpr ⟨_, _, argumentsEq, tells⟩
        simp only [targets.find?_eq]
        rw [kindEq]
        rfl

end ControlMessage

namespace Machine

/--
Nothing differs between two states of a machine but the selected source, and the values in
the slots of sliders.
-/
def Steered (before after : Machine) : Prop :=
  ∃ kind table,
    after = { before with
      sources := before.sources.select kind
      memory := { before.memory with table } } ∧
    table.names = before.table.names ∧
    ∀ slot, some slot ∉ before.ports.sliders → table.get? slot = before.table.get? slot

theorem Steered.refl (machine : Machine) : machine.Steered machine :=
  ⟨machine.sources.selected, machine.table, rfl, rfl, fun _ _ => rfl⟩

theorem Steered.trans {first second third : Machine} (left : first.Steered second)
    (right : second.Steered third) : first.Steered third := by
  obtain ⟨_, firstTable, rfl, firstNames, firstValues⟩ := left
  obtain ⟨kind, table, rfl, names, values⟩ := right
  refine ⟨kind, table, rfl, names.trans firstNames, ?_⟩
  intro slot unbound
  exact (values slot unbound).trans (firstValues slot unbound)

theorem steered_setSource (machine : Machine) (kind : SourceKind) :
    machine.Steered (machine.setSource kind) :=
  ⟨kind, machine.table, rfl, rfl, fun _ _ => rfl⟩

theorem steered_setSlider (machine : Machine) (index : Nat) (value : Sample) :
    machine.Steered (machine.setSlider index value) := by
  rw [setSlider]
  split
  · rename_i place portEq
    refine ⟨machine.sources.selected, machine.table.set place value, rfl,
      VariableTable.names_set _ _ _, ?_⟩
    intro slot unbound
    have other : slot ∉ (some place).toList := by
      intro same
      obtain rfl := List.mem_singleton.mp same
      exact unbound (Vector.mem_of_getElem? portEq)
    exact Ports.get?_assign other machine.table value
  · exact .refl machine

/-- Variables without the name of a slider keep their values. -/
theorem Steered.lookup?_eq {before after : Machine} (steered : before.Steered after)
    (portsEq : before.ports = .resolve before.table) {name : String}
    (noSlider : name ∉ Port.sliders) :
    after.table.lookup? name = before.table.lookup? name := by
  obtain ⟨_, table, rfl, namesEq, valuesEq⟩ := steered
  refine VariableTable.lookup?_eq_of_names namesEq ?_
  intro mentioned
  apply valuesEq
  rw [portsEq]
  intro bound
  obtain ⟨slider, sliderMem, found⟩ := Vector.mem_map.mp bound
  have named := VariableTable.name?_of_find? (VariableTable.find?_of_mem mentioned)
  rw [VariableTable.name?_of_find? found] at named
  exact noSlider (Option.some.inj named ▸ sliderMem)

end Machine

namespace Core

/-- The lock is as it was, and nothing of the machine differs but what can be steered. -/
def Steered (before after : Core) : Prop :=
  before.machine.Steered after.machine ∧ after = { before with machine := after.machine }

/-- What messages lead to, one behind the other: each has the change it asks for, or none. -/
inductive Obeys (mappings : List ControlMapping) : Core → List ControlMessage → Core → Prop
  | done (core : Core) : Obeys mappings core [] core
  | setSlider {core after : Core} {message : ControlMessage} {others : List ControlMessage}
      {index : Nat} {value : Sample} (asks : message.AsksFor mappings (.setSlider index value))
      (rest : Obeys mappings (core.setSlider index value) others after) :
      Obeys mappings core (message :: others) after
  | setSource {core after : Core} {message : ControlMessage} {others : List ControlMessage}
      {kind : SourceKind} (asks : message.AsksFor mappings (.setSource kind))
      (rest : Obeys mappings (core.setSource kind) others after) :
      Obeys mappings core (message :: others) after
  | ignore {core after : Core} {message : ControlMessage} {others : List ControlMessage}
      (meaningless : ∀ event, ¬ message.AsksFor mappings event)
      (rest : Obeys mappings core others after) : Obeys mappings core (message :: others) after

variable {mappings : List ControlMapping}

theorem applyMessage_of_asks {message : ControlMessage} {event : ControlEvent}
    (asks : message.AsksFor mappings event) (core : Core) :
    core.applyMessage mappings message = core.applyEvent event := by
  rw [applyMessage, ControlMessage.event?_eq_some_iff.mpr asks]

theorem applyMessage_of_meaningless {message : ControlMessage}
    (meaningless : ∀ event, ¬ message.AsksFor mappings event) (core : Core) :
    core.applyMessage mappings message = core := by
  rw [applyMessage]
  split
  · rfl
  · rename_i event found
    exact absurd (ControlMessage.event?_eq_some_iff.mp found) (meaningless event)

/-- Messages are obeyed by applying them from the first to the last. -/
theorem obeys_iff {core after : Core} {messages : List ControlMessage} :
    Obeys mappings core messages after ↔
      after = messages.foldl (fun core message => core.applyMessage mappings message) core := by
  constructor
  · intro obeys
    induction obeys with
    | done core => rfl
    | setSlider asks _ ih | setSource asks _ ih =>
        rw [List.foldl_cons, applyMessage_of_asks asks]
        exact ih
    | ignore meaningless _ ih =>
        rw [List.foldl_cons, applyMessage_of_meaningless meaningless]
        exact ih
  · rintro rfl
    induction messages generalizing core with
    | nil => exact .done core
    | cons message others ih =>
        rw [List.foldl_cons]
        by_cases meaningful : ∃ event, message.AsksFor mappings event
        · obtain ⟨event, asks⟩ := meaningful
          rw [applyMessage_of_asks asks]
          cases event with
          | setSlider index value => exact .setSlider asks ih
          | setSource kind => exact .setSource asks ih
        · have meaningless : ∀ event, ¬ message.AsksFor mappings event :=
            fun event asks => meaningful ⟨event, asks⟩
          rw [applyMessage_of_meaningless meaningless]
          exact .ignore meaningless ih

mutual

theorem dispatch_eq_foldl (core : Core) (packet : ControlPacket) :
    core.dispatch mappings packet =
      packet.messages.foldl (fun core message => core.applyMessage mappings message) core := by
  cases packet with
  | message single => rfl
  | bundle packets => exact dispatchAll_eq_foldl core packets

theorem dispatchAll_eq_foldl (core : Core) (packets : List ControlPacket) :
    core.dispatchAll mappings packets =
      (ControlPacket.messagesOfAll packets).foldl
        (fun core message => core.applyMessage mappings message) core := by
  cases packets with
  | nil => rfl
  | cons packet others =>
      rw [dispatchAll, ControlPacket.messagesOfAll, List.foldl_append, dispatch_eq_foldl core packet]
      exact dispatchAll_eq_foldl _ others

end

theorem Obeys.steered {core after : Core} {messages : List ControlMessage}
    (obeys : Obeys mappings core messages after) : core.Steered after := by
  induction obeys with
  | done core => exact ⟨.refl _, rfl⟩
  | @setSlider core _ _ _ index value _ _ ih =>
      obtain ⟨steered, lockEq⟩ := ih
      exact ⟨(core.machine.steered_setSlider index value).trans steered, lockEq⟩
  | @setSource core _ _ _ kind _ _ ih =>
      obtain ⟨steered, lockEq⟩ := ih
      exact ⟨(core.machine.steered_setSource kind).trans steered, lockEq⟩
  | ignore _ _ ih => exact ih

/--
A packet has the effect of its messages in their order, each of which has the change that it
asks for under the first mapping with its address, or none.  Over the whole packet nothing
differs but the selected source and the values of the sliders that the patch mentions; a
variable with another name keeps its value.
-/
theorem dispatch_message_by_message (mappings : List ControlMapping) (core : Core)
    (packet : ControlPacket) :
    (∀ after, Obeys mappings core packet.messages after ↔ after = core.dispatch mappings packet) ∧
      core.Steered (core.dispatch mappings packet) ∧
      (core.machine.ports = .resolve core.machine.table → ∀ name, name ∉ Port.sliders →
        (core.dispatch mappings packet).machine.table.lookup? name =
          core.machine.table.lookup? name) := by
  have obeysIff : ∀ after, Obeys mappings core packet.messages after ↔
      after = core.dispatch mappings packet := by
    intro after
    rw [dispatch_eq_foldl]
    exact obeys_iff
  have steered := ((obeysIff _).mpr rfl).steered
  exact ⟨obeysIff, steered, fun portsEq name noSlider => steered.1.lookup?_eq portsEq noSlider⟩

/-- A message that fails inside a bundle, or whose mapping is shadowed, stops no other. -/
theorem dispatch_message_by_message_nestedBundle :
    let mappings : List ControlMapping :=
      [⟨"/a", .slider 0⟩, ⟨"/a", .source⟩, ⟨"/b", .slider 4⟩, ⟨"/s", .source⟩]
    let packet : ControlPacket := .bundle
      [.message ⟨"/a", [.float ⟨7⟩]⟩,
        .bundle [.message ⟨"/a", [.string "sine"]⟩, .message ⟨"/b", [.float ⟨8⟩]⟩],
        .message ⟨"/s", [.int 2]⟩]
    let core : Core :=
      ⟨.started .standard ⟨⟨[.read 0, .write 1], 0⟩, .ofNames ["slider1", "out"]⟩, false, false⟩
    let after := core.dispatch mappings packet
    core.machine.ports = .resolve core.machine.table ∧ "out" ∉ Port.sliders ∧
      core.Steered after ∧
      after.machine.table.lookup? "slider1" = some ⟨7⟩ ∧
      after.machine.table.lookup? "out" = core.machine.table.lookup? "out" ∧
      after.machine.sources.selected = .noise := by
  intro mappings packet core after
  obtain ⟨_, steered, kept⟩ := dispatch_message_by_message mappings core packet
  have noSlider : "out" ∉ Port.sliders := by decide +kernel
  exact ⟨rfl, noSlider, steered, by decide +kernel, kept rfl "out" noSlider, by decide +kernel⟩

end Core

end SignalPatch
