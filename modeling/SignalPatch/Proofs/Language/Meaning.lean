import SignalPatch.Proofs.Language.GuardExactness
import SignalPatch.Proofs.Language.Simulation

/-!
# A loaded patch plays its meaning

A running machine with a compiled patch, on a stack that has room for what the
patch needs, plays on every tick what the statements of the patch mean.
-/

namespace SignalPatch

namespace VariableTable

theorem assign_holding {table : VariableTable} {mentioned : List String}
    (mentions : ∀ name, name ∈ table.names ↔ name ∈ mentioned) (environment : Environment)
    (name : String) (value : Sample) :
    Ports.assign (holding table.names environment.value) (table.find? name) value =
      holding table.names (environment.assignIf mentioned name value).value := by
  by_cases present : name ∈ table.names
  · rw [find?_of_mem present, Environment.assignIf, if_pos ((mentions name).mp present)]
    exact set_holding table.nodup_names present environment.value value
  · rw [find?_of_notMem present, Environment.assignIf,
      if_neg (fun member => present ((mentions name).mpr member))]
    rfl

theorem fetch_holding {table : VariableTable} {mentioned : List String}
    (mentions : ∀ name, name ∈ table.names ↔ name ∈ mentioned) (environment : Environment)
    (name : String) :
    Ports.fetch (holding table.names environment.value) (table.find? name) =
      environment.valueIf mentioned name := by
  by_cases present : name ∈ table.names
  · rw [find?_of_mem present, Environment.valueIf, if_pos ((mentions name).mp present),
      Ports.fetch, Option.bind_some, get?_holding table.nodup_names present, Option.getD_some]
  · rw [find?_of_notMem present, Environment.valueIf,
      if_neg (fun member => present ((mentions name).mpr member))]
    rfl

theorem bindInputs_holding {table : VariableTable} {mentioned : List String}
    (mentions : ∀ name, name ∈ table.names ↔ name ∈ mentioned) (environment : Environment)
    (frame : Frame) :
    (Ports.resolve table).bindInputs (holding table.names environment.value) frame =
      holding table.names (environment.bind mentioned frame).value := by
  simp only [Ports.bindInputs, Ports.resolve, assign_holding mentions, Frame.mean_eq]
  rfl

theorem readOutputs_holding {table : VariableTable} {mentioned : List String}
    (mentions : ∀ name, name ∈ table.names ↔ name ∈ mentioned) (environment : Environment) :
    (Ports.resolve table).readOutputs (holding table.names environment.value) =
      environment.output mentioned := by
  by_cases present : Port.output ∈ table.names
  · simp only [Ports.readOutputs, Ports.resolve, find?_of_mem present, Environment.output,
      (mentions _).mp present, ↓reduceIte, get?_holding table.nodup_names present,
      Option.getD_some]
  · have absent : Port.output ∉ mentioned := fun member => present ((mentions _).mpr member)
    simp only [Ports.readOutputs, Ports.resolve, find?_of_notMem present, Environment.output,
      absent, ↓reduceIte, fetch_holding mentions]

end VariableTable

namespace Environment

theorem memories_assignIf (environment : Environment) (mentioned : List String)
    (name : String) (value : Sample) :
    (environment.assignIf mentioned name value).memories = environment.memories := by
  unfold assignIf
  split
  · rfl
  · rfl

theorem memories_bind (environment : Environment) (mentioned : List String) (frame : Frame) :
    (environment.bind mentioned frame).memories = environment.memories := by
  simp only [bind, memories_assignIf]

/-- The output and the variables of given names behind each tick. -/
def observe (statements : List Statement) (names : List String) :
    List Frame → Environment → List (Frame × VariableTable)
  | [], _ => []
  | frame :: frames, environment =>
      let environment := environment.tick statements frame
      (environment.output (Statement.mentionsOfAll statements),
        .holding names environment.value) :: observe statements names frames environment

end Environment

namespace Machine

/-- The output and the variables behind each tick, where the sound card delivers frames. -/
def observe : List Frame → Machine → List (Frame × VariableTable)
  | [], _ => []
  | live :: lives, machine =>
      let (output, machine) := machine.tick live
      (output, machine.table) :: observe lives machine

/-- The input frame of each tick, where the sound card delivers frames. -/
def hear : List Frame → Machine → List Frame
  | [], _ => []
  | live :: lives, machine => machine.heard live :: hear lives (machine.tick live).2

/-- A running machine with a patch whose memory shows an environment of its statements. -/
structure Means (statements : List Statement) (patch : Patch) (environment : Environment)
    (machine : Machine) : Prop where
  runs : machine.Runs patch.program
  ports_eq : machine.ports = .resolve patch.table
  shows : machine.memory.Shows patch.table.names (Statement.filterPlacesOfAll 0 statements)
    environment
  room : Statement.needOfAll statements ≤ machine.memory.stack.capacity

variable {statements : List Statement} {patch : Patch}

/-- With room for what the patch needs, every pass is completed. -/
theorem Means.exists_verdict (assembled : Patch.ofStatements statements = .ok patch)
    {environment : Environment} {machine : Machine}
    (means : machine.Means statements patch environment) (live : Frame) :
    ∃ memory, machine.verdict live = .ok memory := by
  have sitesEq : (machine.bound live).filters.size = patch.program.filterSites := by
    have lengthEq := congrArg List.length means.shows.sites_eq
    rw [List.length_map, Statement.length_filterPlacesOfAll] at lengthEq
    rw [(Patch.ofStatements_eq_ok assembled).2.2.1]
    exact lengthEq
  have roomBound : Statement.needOfAll statements ≤ (machine.bound live).stack.capacity :=
    means.room
  have endingEq := Patch.ending_run assembled sitesEq (OperandStack.size_clear _)
  rw [Expression.endingWithin_of_le roomBound, ← means.runs.loaded] at endingEq
  cases verdictEq : machine.verdict live with
  | ok memory => exact ⟨memory, rfl⟩
  | error aborted =>
      -- heights alone decide how a pass ends, and here they leave no abort
      have impossible := (congrArg Memory.ending verdictEq).symm.trans endingEq
      cases impossible

/-- A tick plays what the statements mean and goes on with their environment. -/
theorem Means.tick (assembled : Patch.ofStatements statements = .ok patch)
    (nonempty : patch.program.isEmpty = false) {environment : Environment}
    {machine : Machine} (means : machine.Means statements patch environment) (live : Frame) :
    (machine.tick live).1 =
        (environment.tick statements (machine.heard live)).output
          (Statement.mentionsOfAll statements) ∧
      (machine.tick live).2.Means statements patch
        (environment.tick statements (machine.heard live)) := by
  obtain ⟨faultless, codeEq, _, tableEq⟩ := Patch.ofStatements_eq_ok assembled
  have mentions : ∀ name, name ∈ patch.table.names ↔
      name ∈ Statement.mentionsOfAll statements := by
    rw [tableEq]
    exact VariableTable.mem_names_ofNames _
  obtain ⟨memory, completed⟩ := means.exists_verdict assembled live
  have ran : Memory.run (Statement.codeOfAll (patch.table.names.idxOf ·) 0 statements)
      (machine.bound live) = .ok memory := by
    rw [tableEq]
    rw [verdict, means.runs.loaded, codeEq] at completed
    exact completed
  have boundShows : (machine.bound live).Shows patch.table.names
      (Statement.filterPlacesOfAll 0 statements)
      (environment.bind (Statement.mentionsOfAll statements) (machine.heard live)) := by
    refine ⟨?_, ?_⟩
    · rw [← VariableTable.bindInputs_holding mentions, ← means.ports_eq,
        ← means.shows.table_eq]
      rfl
    · rw [Environment.memories_bind]
      exact means.shows.sites_eq
  have memoryShows := Statement.run_codeOfAll patch.table.nodup_names
    (Statement.nodup_filterPlacesOfAll statements 0) statements faultless _ 0 0
    (fun name member => (mentions name).mpr member) (List.prefix_refl _) _ memory boundShows ran
  have layout := machine.verdict_layout live
  rw [completed] at layout
  rw [tick_of_completed (isIdle_eq_false_iff.mpr
    ⟨means.runs.running, means.runs.loaded ▸ nonempty⟩) completed]
  refine ⟨?_, ⟨means.runs.running, means.runs.loaded⟩, means.ports_eq, memoryShows, ?_⟩
  · rw [memoryShows.table_eq, means.ports_eq]
    exact VariableTable.readOutputs_holding mentions _
  · have capacityEq : memory.stack.capacity = machine.memory.stack.capacity :=
      layout.capacity_eq
    exact capacityEq ▸ means.room

/-- What a machine plays in a run of ticks is what the statements mean on what it hears. -/
theorem Means.observe (assembled : Patch.ofStatements statements = .ok patch)
    (nonempty : patch.program.isEmpty = false) (lives : List Frame)
    {environment : Environment} {machine : Machine}
    (means : machine.Means statements patch environment) :
    machine.observe lives =
      environment.observe statements patch.table.names (machine.hear lives) := by
  induction lives generalizing environment machine with
  | nil => rfl
  | cons live others ih =>
      obtain ⟨outputEq, nextMeans⟩ := means.tick assembled nonempty live
      simp only [Machine.observe, hear, Environment.observe, ih nextMeans, outputEq]
      rw [Machine.table, nextMeans.shows.table_eq]

end Machine

end SignalPatch
