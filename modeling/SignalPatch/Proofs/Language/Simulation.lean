import SignalPatch.Proofs.Language.FilterPlaces
import SignalPatch.Proofs.Language.OperandNeed
import SignalPatch.Proofs.Machine.Effects

/-!
# Code computes the meaning

Completed code of statements takes a memory that shows an environment to one that
shows the environment behind the statements.  Slots stand for names and sites for
the places of filter calls, and no two names or places are the same.
-/

namespace SignalPatch

/-- Where no key stands twice, an update of the value of one changes one of their values. -/
theorem map_update_getElem {Key Value : Type} [DecidableEq Key] {keys : List Key}
    (distinct : keys.Nodup) {index : Nat} (inside : index < keys.length)
    (values : Key → Value) (value : Value) :
    keys.map (Function.update values keys[index] value) =
      (keys.map values).set index value := by
  apply List.ext_getElem
  · simp
  · intro other otherInside _
    rw [List.getElem_map, List.getElem_set]
    split
    · rename_i same
      subst same
      exact Function.update_self ..
    · rename_i different
      rw [List.getElem_map]
      refine Function.update_of_ne ?_ ..
      intro keysEq
      exact different ((distinct.getElem_inj_iff).mp keysEq).symm

namespace VariableTable

theorem get?_holding {names : List String} (distinct : names.Nodup) {name : String}
    (mentioned : name ∈ names) (value : String → Sample) :
    (holding names value).get? (names.idxOf name) = some (value name) := by
  have inside : names.idxOf name < names.length := List.idxOf_lt_length_of_mem mentioned
  rw [VariableStore.get?_eq_entries_getElem?, entries_holding distinct]
  simp [inside]

/-- A write to the slot of a name changes the value of this name only. -/
theorem set_holding {names : List String} (distinct : names.Nodup) {name : String}
    (mentioned : name ∈ names) (value : String → Sample) (result : Sample) :
    (holding names value).set (names.idxOf name) result =
      holding names (Function.update value name result) := by
  have inside : names.idxOf name < names.length := List.idxOf_lt_length_of_mem mentioned
  have nameEq : names[names.idxOf name] = name := List.getElem_idxOf inside
  have entriesEq : (fun other => (⟨other, Function.update value name result other⟩ : Variable)) =
      Function.update (fun other => ⟨other, value other⟩) name ⟨name, result⟩ := by
    funext other
    by_cases same : other = name
    · subst same
      simp
    · simp [Function.update_of_ne same]
  have changed := map_update_getElem distinct inside
    (fun other => (⟨other, value other⟩ : Variable)) ⟨name, result⟩
  rw [nameEq] at changed
  apply ext_entries
  rw [entries_holding distinct, entriesEq, changed, entries_set, entries_holding distinct,
    List.modify_eq_set_getElem?]
  simp [inside]

end VariableTable

namespace Builtin

/-- A function that is computed by an opcode has the value of the opcode. -/
theorem compute_of_opcode {function : Builtin} {opcode : Opcode} {arguments : List Sample}
    (lowered : function.lowering = .opcode opcode)
    (countEq : arguments.length = opcode.operands) (memory : FilterMemory) :
    function.compute arguments memory = (opcode.value arguments, memory) := by
  cases function <;> cases lowered
  case pow | round =>
    obtain ⟨first, second, rfl⟩ := List.length_eq_two.mp countEq
    rfl
  all_goals
    obtain ⟨operand, rfl⟩ := List.length_eq_one_iff.mp countEq
    rfl

theorem compute_of_filter {function : Builtin} {kind : FilterKind} {input : Sample}
    {coefficients : List Sample} {memory after : FilterMemory} {output : Sample}
    (lowered : function.lowering = .filter kind)
    (stepped : FilterBank.stepMemory memory kind input coefficients = some (output, after)) :
    function.compute (input :: coefficients) memory = (output, after) := by
  cases function <;> cases lowered
  case fir =>
    simp only [FilterBank.stepMemory] at stepped
    split at stepped
    · exact Option.some.inj stepped
    · cases stepped
  case biquad =>
    unfold FilterBank.stepMemory at stepped
    split at stepped
    · contradiction
    · exact Option.some.inj stepped
    · cases stepped

end Builtin

theorem Expression.length_evaluateAll (value : String → Sample) (sources : List Expression)
    (place : Place) (index : Nat) (memories : FilterMemories) :
    (evaluateAll value place index sources memories).1.length = sources.length := by
  induction sources generalizing index memories with
  | nil => rfl
  | cons source others ih =>
      rw [evaluateAll]
      exact congrArg Nat.succ (ih _ _)

/-- A memory in which the slots of names and the sites of places hold an environment. -/
structure Memory.Shows (names : List String) (places : List Place)
    (environment : Environment) (memory : Memory) : Prop where
  table_eq : memory.table = .holding names environment.value
  sites_eq : memory.filters.sites.toList = places.map environment.memories

namespace Memory

variable {names : List String} {places : List Place}

theorem Pushed.shows {environment : Environment} {memory after : Memory} {value : Sample}
    (pushed : Pushed memory value after) (shows : memory.Shows names places environment) :
    after.Shows names places environment :=
  ⟨pushed.table_eq.trans shows.table_eq, by rw [pushed.filters_eq, shows.sites_eq]⟩

/-- A filter that runs at the site of a place changes the memory of this place only. -/
theorem process_eq_some (distinct : places.Nodup) {memories : FilterMemories}
    {filters after : FilterBank} (sitesEq : filters.sites.toList = places.map memories)
    {site : Nat} {place : Place} (found : places[site]? = some place) {kind : FilterKind}
    {arguments : List Sample} {output : Sample}
    (processed : filters.process site kind arguments = (some output, after)) :
    ∃ input coefficients memory, arguments = input :: coefficients ∧
      FilterBank.stepMemory (memories place) kind input coefficients =
        some (output, memory) ∧
      after.sites.toList = places.map (Function.update memories place memory) := by
  obtain ⟨sites⟩ := filters
  obtain ⟨inside, placeEq⟩ := List.getElem?_eq_some_iff.mp found
  simp only at sitesEq
  simp only [FilterBank.process] at processed
  split at processed
  · rename_i bounded
    have memoryEq : sites[site] = memories place := by
      rw [← placeEq, ← Array.getElem_toList]
      simp [sitesEq]
    cases arguments with
    | nil => cases processed
    | cons input coefficients =>
        simp only [memoryEq] at processed
        cases stepped : FilterBank.stepMemory (memories place) kind input coefficients with
        | none =>
            rw [stepped] at processed
            cases processed
        | some result =>
            obtain ⟨value, memory⟩ := result
            rw [stepped] at processed
            cases processed
            refine ⟨input, coefficients, memory, rfl, stepped, ?_⟩
            rw [← placeEq, map_update_getElem distinct inside, ← sitesEq, Array.toList_set]
  · cases processed

/-- The instruction of a call replaces the arguments by the value of the call. -/
theorem step_call (distinct : places.Nodup) {name : String} {function : Builtin}
    (named : Builtin.ofName? name = some function) {arguments : List Sample}
    (accepted : function.arity.accepts arguments.length = true) {site : Nat} {place : Place}
    (within : List.replicate (Builtin.sitesOfName name) place <+: places.drop site)
    {value : String → Sample} {memories : FilterMemories} {memory after : Memory}
    (shows : memory.Shows names places ⟨value, memories⟩) {below : List Sample}
    (valuesEq : memory.stack.toList = below ++ arguments)
    (stepped : memory.step (function.instruction arguments.length site) = .ok after) :
    after.Shows names places ⟨value, (Builtin.computeAt place name arguments memories).2⟩ ∧
      after.stack.toList =
        below ++ [(Builtin.computeAt place name arguments memories).1] := by
  cases lowered : function.lowering with
  | opcode opcode =>
      simp only [Builtin.instruction, lowered] at stepped
      obtain ⟨applied, tableEq, filtersEq⟩ := step_operate_eq_ok stepped
      have countEq := Builtin.count_of_accepts_opcode lowered accepted
      have nextEq := Opcode.values_of_apply (Builtin.results_of_lowering lowered) countEq
        applied valuesEq
      simp only [Builtin.computeAt, named, Builtin.compute_of_opcode lowered countEq,
        Function.update_eq_self]
      exact ⟨⟨tableEq.trans shows.table_eq, by rw [filtersEq, shows.sites_eq]⟩, nextEq⟩
  | filter kind =>
      simp only [Builtin.instruction, lowered] at stepped
      obtain ⟨others, taken, output, stackEq, countEq, tableEq, processed, nextEq⟩ :=
        step_filter_eq_ok stepped
      obtain ⟨rfl, rfl⟩ := List.append_inj' (stackEq.symm.trans valuesEq) countEq
      have found : places[site]? = some place := by
        simp only [Builtin.sitesOfName, named, Option.elim_some, Builtin.sites, lowered,
          List.replicate_one] at within
        obtain ⟨rest, restEq⟩ := within
        have headEq := congrArg List.head? restEq
        simpa using headEq.symm
      obtain ⟨input, coefficients, changed, rfl, filterStepped, sitesEq⟩ :=
        process_eq_some distinct shows.sites_eq found processed
      simp only [Builtin.computeAt, named, Builtin.compute_of_filter lowered filterStepped]
      exact ⟨⟨tableEq.trans shows.table_eq, sitesEq⟩, nextEq⟩

end Memory

namespace Expression

variable {names : List String} {places : List Place}

mutual

/-- Completed code of an expression pushes its value. -/
theorem run_code (distinctNames : names.Nodup) (distinct : places.Nodup)
    (value : String → Sample) (source : Expression) (faultless : source.firstFault? = none)
    (place : Place) (site : Nat)
    (mentioned : ∀ name ∈ source.mentions, name ∈ names)
    (within : source.filterPlaces place <+: places.drop site) (memories : FilterMemories)
    (memory after : Memory) (shows : memory.Shows names places ⟨value, memories⟩)
    (ran : Memory.run (source.code (names.idxOf ·) site) memory = .ok after) :
    after.Shows names places ⟨value, (source.evaluate value place memories).2⟩ ∧
      after.stack.toList =
        memory.stack.toList ++ [(source.evaluate value place memories).1] := by
  cases source with
  | literal constant position =>
      rw [code, Memory.run_singleton] at ran
      have pushed := Memory.pushed_of_load ran
      exact ⟨pushed.shows shows, pushed.values_eq⟩
  | reference name position =>
      rw [code, Memory.run_singleton] at ran
      have pushed := Memory.pushed_of_read ran
      have present : name ∈ names := mentioned name (List.mem_singleton_self name)
      rw [shows.table_eq, VariableTable.get?_holding distinctNames present, Option.getD_some]
        at pushed
      exact ⟨pushed.shows shows, pushed.values_eq⟩
  | negate operand position =>
      rw [code] at ran
      obtain ⟨middle, ranOperand, ranNegate⟩ := Memory.run_append_eq_ok_iff.mp ran
      obtain ⟨middleShows, middleEq⟩ := run_code distinctNames distinct value operand
        faultless _ site mentioned within memories memory middle shows ranOperand
      rw [Memory.run_singleton] at ranNegate
      obtain ⟨applied, tableEq, filtersEq⟩ := Memory.step_operate_eq_ok ranNegate
      have nextEq := Opcode.values_of_apply rfl rfl applied middleEq
      exact ⟨⟨tableEq.trans middleShows.table_eq, by rw [filtersEq, middleShows.sites_eq]; rfl⟩,
        nextEq⟩
  | binary operator left right position =>
      simp only [firstFault?, Option.or_eq_none_iff] at faultless
      simp only [mentions, List.mem_append] at mentioned
      obtain ⟨leftWithin, rightWithin⟩ := prefix_drop_of_append within
      rw [length_filterPlaces] at rightWithin
      rw [code] at ran
      obtain ⟨second, ranOperands, ranOperator⟩ := Memory.run_append_eq_ok_iff.mp ran
      obtain ⟨first, ranLeft, ranRight⟩ := Memory.run_append_eq_ok_iff.mp ranOperands
      obtain ⟨firstShows, firstEq⟩ := run_code distinctNames distinct value left faultless.1 _
        site (fun name member => mentioned name (Or.inl member)) leftWithin memories memory first
        shows ranLeft
      -- the sites of the right operand start where those of the left one end
      obtain ⟨secondShows, secondEq⟩ := run_code distinctNames distinct value right
        faultless.2 _ (site + left.sites) (fun name member => mentioned name (Or.inr member))
        rightWithin _ first second firstShows ranRight
      rw [Memory.run_singleton] at ranOperator
      obtain ⟨applied, tableEq, filtersEq⟩ := Memory.step_operate_eq_ok ranOperator
      rw [firstEq, List.append_assoc] at secondEq
      have nextEq := Opcode.values_of_apply (by cases operator <;> rfl)
        (by cases operator <;> rfl) applied secondEq
      refine ⟨⟨tableEq.trans secondShows.table_eq,
        by rw [filtersEq, secondShows.sites_eq]; rfl⟩, ?_⟩
      cases operator <;> exact nextEq
  | call name arguments position =>
      simp only [firstFault?] at faultless
      split at faultless
      · cases faultless
      · rename_i function resolved
        obtain ⟨named, accepted⟩ := Assembly.resolveCall_eq_ok resolved
        obtain ⟨argumentsWithin, callWithin⟩ := prefix_drop_of_append within
        rw [length_filterPlacesOfAll] at callWithin
        rw [code] at ran
        obtain ⟨middle, ranArguments, ranCall⟩ := Memory.run_append_eq_ok_iff.mp ran
        obtain ⟨middleShows, middleEq⟩ := run_codeOfAll distinctNames distinct value arguments
          faultless place 0 site mentioned argumentsWithin memories memory middle shows
          ranArguments
        have countEq := length_evaluateAll value arguments place 0 memories
        rw [Builtin.callCode, named, Option.elim_some, Memory.run_singleton, ← countEq]
          at ranCall
        exact Memory.step_call distinct named (countEq ▸ accepted) callWithin middleShows
          middleEq ranCall

theorem run_codeOfAll (distinctNames : names.Nodup) (distinct : places.Nodup)
    (value : String → Sample) (sources : List Expression)
    (faultless : firstFaultOfAll? sources = none) (place : Place) (index site : Nat)
    (mentioned : ∀ name ∈ mentionsOfAll sources, name ∈ names)
    (within : filterPlacesOfAll place index sources <+: places.drop site)
    (memories : FilterMemories) (memory after : Memory)
    (shows : memory.Shows names places ⟨value, memories⟩)
    (ran : Memory.run (codeOfAll (names.idxOf ·) site sources) memory = .ok after) :
    after.Shows names places ⟨value, (evaluateAll value place index sources memories).2⟩ ∧
      after.stack.toList =
        memory.stack.toList ++ (evaluateAll value place index sources memories).1 := by
  cases sources with
  | nil =>
      cases ran
      exact ⟨shows, (List.append_nil _).symm⟩
  | cons source others =>
      simp only [firstFaultOfAll?, Option.or_eq_none_iff] at faultless
      simp only [mentionsOfAll, List.mem_append] at mentioned
      obtain ⟨sourceWithin, othersWithin⟩ := prefix_drop_of_append within
      rw [length_filterPlaces] at othersWithin
      rw [codeOfAll] at ran
      obtain ⟨middle, ranSource, ranOthers⟩ := Memory.run_append_eq_ok_iff.mp ran
      obtain ⟨middleShows, middleEq⟩ := run_code distinctNames distinct value source
        faultless.1 _ site (fun name member => mentioned name (Or.inl member)) sourceWithin
        memories memory middle shows ranSource
      obtain ⟨afterShows, afterEq⟩ := run_codeOfAll distinctNames distinct value others
        faultless.2 place (index + 1) (site + source.sites)
        (fun name member => mentioned name (Or.inr member)) othersWithin _ middle after
        middleShows ranOthers
      rw [middleEq, List.append_assoc] at afterEq
      exact ⟨afterShows, afterEq⟩

end

end Expression

namespace Statement

variable {names : List String} {places : List Place}

/-- Completed code of a statement executes it and leaves the stack as it was. -/
theorem run_code (distinctNames : names.Nodup) (distinctPlaces : places.Nodup)
    (environment : Environment) (statement : Statement)
    (faultless : statement.firstFault? = none) (index site : Nat)
    (mentioned : ∀ name ∈ statement.mentions, name ∈ names)
    (within : statement.value.filterPlaces [index] <+: places.drop site)
    (memory after : Memory) (shows : memory.Shows names places environment)
    (ran : Memory.run (statement.code (names.idxOf ·) site) memory = .ok after) :
    after.Shows names places (environment.execute index statement) ∧
      after.stack.toList = memory.stack.toList := by
  have valueFaultless := firstFault?_value faultless
  obtain ⟨middle, ranValue, consumed⟩ := Memory.run_append_eq_ok_iff.mp ran
  rw [Memory.run_singleton] at consumed
  cases statement with
  | assign target source position =>
      have targetMentioned : target ∈ names := mentioned target (List.mem_cons_self ..)
      have sourceMentioned : ∀ name ∈ source.mentions, name ∈ names :=
        fun name member => mentioned name (List.mem_cons_of_mem _ member)
      obtain ⟨middleShows, middleEq⟩ := source.run_code distinctNames distinctPlaces
        environment.value valueFaultless [index] site sourceMentioned within
        environment.memories memory middle shows ranValue
      obtain ⟨result, stackEq, tableEq, filtersEq⟩ := Memory.step_write_eq_ok consumed
      obtain ⟨belowEq, resultEq⟩ := List.append_inj' (middleEq.symm.trans stackEq) rfl
      refine ⟨⟨?_, by rw [filtersEq, middleShows.sites_eq]; rfl⟩, belowEq.symm⟩
      rw [tableEq, middleShows.table_eq, VariableTable.set_holding distinctNames targetMentioned,
        ← List.singleton_inj.mp resultEq]
      rfl
  | bare source =>
      obtain ⟨middleShows, middleEq⟩ := source.run_code distinctNames distinctPlaces
        environment.value valueFaultless [index] site mentioned within environment.memories
        memory middle shows ranValue
      obtain ⟨applied, tableEq, filtersEq⟩ := Memory.step_operate_eq_ok consumed
      refine ⟨⟨tableEq.trans middleShows.table_eq,
        by rw [filtersEq, middleShows.sites_eq]; rfl⟩, ?_⟩
      simp only [Opcode.apply] at applied
      split at applied
      · cases applied
      · rename_i dropped rest popped
        cases applied
        have stackEq := (OperandStack.pop_eq_ok popped).2
        exact (List.append_inj' (middleEq.symm.trans stackEq) rfl).1.symm

/-- Completed code of statements executes them from top to bottom. -/
theorem run_codeOfAll (distinctNames : names.Nodup) (distinctPlaces : places.Nodup)
    (statements : List Statement) (faultless : firstFaultOfAll? statements = none)
    (environment : Environment) (index site : Nat)
    (mentioned : ∀ name ∈ mentionsOfAll statements, name ∈ names)
    (within : filterPlacesOfAll index statements <+: places.drop site)
    (memory after : Memory) (shows : memory.Shows names places environment)
    (ran : Memory.run (codeOfAll (names.idxOf ·) site statements) memory = .ok after) :
    after.Shows names places (environment.executeAll index statements) := by
  induction statements generalizing environment index site memory with
  | nil =>
      cases ran
      exact shows
  | cons statement others ih =>
      simp only [firstFaultOfAll?, Option.or_eq_none_iff] at faultless
      simp only [mentionsOfAll, List.flatMap_cons, List.mem_append] at mentioned
      obtain ⟨statementWithin, othersWithin⟩ := prefix_drop_of_append within
      rw [Expression.length_filterPlaces] at othersWithin
      obtain ⟨middle, ranStatement, ranOthers⟩ := Memory.run_append_eq_ok_iff.mp ran
      obtain ⟨middleShows, _⟩ := run_code distinctNames distinctPlaces environment statement
        faultless.1 index site (fun name member => mentioned name (Or.inl member))
        statementWithin memory middle shows ranStatement
      exact ih faultless.2 _ (index + 1) (site + statement.value.sites)
        (fun name member => mentioned name (Or.inr member)) othersWithin middle middleShows
        ranOthers

end Statement

end SignalPatch
