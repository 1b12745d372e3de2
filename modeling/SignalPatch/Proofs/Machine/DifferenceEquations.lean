import Mathlib.Data.List.Induction
import SignalPatch.Proofs.Machine.Height

/-!
# Difference equations

A filter computes its output from what went in and out of it before, however much of that
its memory holds.  As long as a site is called as one kind of filter, its latest inputs are
where the equation of this kind looks for them, also when the number of taps changes from
call to call and other sites are called in between.
-/

namespace SignalPatch

/-- A call of a filter: the site of its memory, and its arguments, the input first. -/
structure FilterCall where
  site : Nat
  kind : FilterKind
  arguments : List Sample

/-- A sample of a signal, the latest first, so many calls ago; at first there was silence. -/
def ago (signal : List Sample) (calls : Nat) : Sample :=
  signal.getD calls 0

@[simp]
theorem ago_cons_zero (latest : Sample) (signal : List Sample) : ago (latest :: signal) 0 = latest :=
  rfl

@[simp]
theorem ago_cons_succ (latest : Sample) (signal : List Sample) (calls : Nat) :
    ago (latest :: signal) (calls + 1) = ago signal calls :=
  rfl

namespace FilterKind

/--
The output of a filter with given coefficients, if it takes so many.  The inputs begin with
that of the call, the outputs with that of the call before.
-/
def equation : FilterKind → List Sample → List Sample → List Sample → Option Sample
  | .fir, taps, inputs, _ =>
      if taps.length ≤ maxTaps then
        some ((List.range taps.length).foldl
          (fun sum age => sum + taps.getD age 0 * ago inputs age) (-0.0))
      else none
  | .biquad, [b0, b1, b2, a1, a2], inputs, outputs =>
      some (b0 * ago inputs 0 + b1 * ago inputs 1 + b2 * ago inputs 2
        - a1 * ago outputs 0 - a2 * ago outputs 1)
  | .biquad, _, _, _ => none

/-- How many inputs a filter looks at, that of the call included. -/
def reach : FilterKind → Nat
  | .fir => maxTaps
  | .biquad => 2

end FilterKind

namespace FilterMemory

/-- A memory holds what the next equations of a kind of filter look at. -/
structure Remembers (kind : FilterKind) (inputs outputs : List Sample) (memory : FilterMemory) :
    Prop where
  history_eq : ∀ age (inside : age < maxTaps), age < kind.reach →
    memory.history[age] = ago inputs age
  outputs_eq : kind = .biquad →
    memory.lastOutput = ago outputs 0 ∧ memory.previousOutput = ago outputs 1

theorem remembers_silent (kind : FilterKind) : silent.Remembers kind [] [] :=
  ⟨fun _ _ _ => Vector.getElem_replicate _, fun _ => ⟨rfl, rfl⟩⟩

theorem getElem_remember (history : Vector Sample maxTaps) (input : Sample) {inputs : List Sample}
    {reach : Nat} (historyEq : ∀ age (inside : age < maxTaps), age < reach →
      history[age] = ago inputs age) (age : Nat) (inside : age < maxTaps) (near : age < reach) :
    (remember history input)[age] = ago (input :: inputs) age := by
  rw [remember, Vector.getElem_ofFn]
  cases age with
  | zero => rfl
  | succ age => exact historyEq age (by omega) (by omega)

/-- Weights are paired with the inputs of their ages, as far as there are weights. -/
theorem zip_eq_map_range {weights values inputs : List Sample}
    (valuesEq : ∀ age < weights.length, values[age]? = some (ago inputs age)) :
    weights.zip values =
      (List.range weights.length).map (fun age => (weights.getD age 0, ago inputs age)) := by
  apply List.ext_getElem?
  intro age
  by_cases inside : age < weights.length
  · simp [List.getElem?_zip_eq_some, valuesEq age inside, inside]
  · have behind : (weights.zip values).length ≤ age := by
      rw [List.length_zip]
      omega
    rw [List.getElem?_eq_none behind]
    simp [Nat.le_of_not_lt inside]

variable {memory : FilterMemory} {inputs outputs : List Sample}

theorem weightedSum_eq {weights values : List Sample}
    (valuesEq : ∀ age < weights.length, values[age]? = some (ago inputs age)) :
    weightedSum weights values =
      (List.range weights.length).foldl
        (fun sum age => sum + weights.getD age 0 * ago inputs age) (-0.0) := by
  rw [weightedSum, zip_eq_map_range valuesEq, List.foldl_map]

theorem Remembers.fir (remembers : memory.Remembers .fir inputs outputs) (input : Sample)
    {taps : List Sample} (few : taps.length ≤ maxTaps) :
    some (memory.fir input taps).1 = FilterKind.fir.equation taps (input :: inputs) outputs ∧
      ∀ output, (memory.fir input taps).2.Remembers .fir (input :: inputs) output := by
  have newer := getElem_remember memory.history input remembers.history_eq
  refine ⟨?_, ?_⟩
  · rw [FilterKind.equation, if_pos few]
    refine congrArg some (weightedSum_eq ?_)
    intro age inside
    have within : age < maxTaps := by omega
    rw [Vector.getElem?_toList, Vector.getElem?_eq_getElem within]
    exact congrArg some (newer age within within)
  · intro output
    exact ⟨newer, fun other => by cases other⟩

theorem Remembers.biquad (remembers : memory.Remembers .biquad inputs outputs) (input : Sample)
    (b0 b1 b2 a1 a2 : Sample) :
    let stepped := memory.biquad input ⟨b0, b1, b2, a1, a2⟩
    some stepped.1 = FilterKind.biquad.equation [b0, b1, b2, a1, a2] (input :: inputs) outputs ∧
      stepped.2.Remembers .biquad (input :: inputs) (stepped.1 :: outputs) := by
  obtain ⟨historyEq, outputsEq⟩ := remembers
  obtain ⟨lastEq, previousEq⟩ := outputsEq rfl
  have latestEq := historyEq 0 (by decide) (by decide)
  have earlierEq := historyEq 1 (by decide) (by decide)
  obtain ⟨history, lastOutput, previousOutput⟩ := memory
  dsimp only at lastEq previousEq latestEq earlierEq
  refine ⟨?_, ?_, ?_⟩
  · simp only [FilterMemory.biquad, FilterKind.equation, latestEq, earlierEq, lastEq, previousEq,
      ago_cons_zero, ago_cons_succ]
  · intro age inside near
    rcases age with _ | _ | age
    · exact Vector.getElem_set_self inside
    · have elsewhere : 0 ≠ 0 + 1 := by decide
      refine (Vector.getElem_set_ne (by decide) inside elsewhere).trans ?_
      exact (Vector.getElem_set_self inside).trans latestEq
    · change age + 2 < 2 at near
      omega
  · intro _
    exact ⟨rfl, lastEq⟩

/-- One step of a filter follows its equation, and the memory behind it is up to date. -/
theorem Remembers.step {kind : FilterKind} (remembers : memory.Remembers kind inputs outputs)
    (input : Sample) (coefficients : List Sample) :
    (FilterBank.stepMemory memory kind input coefficients).map Prod.fst =
        kind.equation coefficients (input :: inputs) outputs ∧
      ∀ output after,
        FilterBank.stepMemory memory kind input coefficients = some (output, after) →
          after.Remembers kind (input :: inputs) (output :: outputs) := by
  unfold FilterBank.stepMemory
  split
  · split
    · rename_i few
      obtain ⟨outputEq, next⟩ := remembers.fir input few
      refine ⟨outputEq, ?_⟩
      rintro output after stepEq
      have memoryEq : (memory.fir input coefficients).2 = after :=
        congrArg Prod.snd (Option.some.inj stepEq)
      exact memoryEq ▸ next (output :: outputs)
    · rename_i many
      exact ⟨by rw [FilterKind.equation, if_neg many]; rfl, fun _ _ stepEq => by cases stepEq⟩
  · rename_i b0 b1 b2 a1 a2
    obtain ⟨outputEq, next⟩ := remembers.biquad input b0 b1 b2 a1 a2
    refine ⟨outputEq, ?_⟩
    rintro output after stepEq
    rw [Option.some.inj stepEq] at next
    exact next
  · rename_i otherwise
    refine ⟨?_, fun _ _ stepEq => by cases stepEq⟩
    rw [FilterKind.equation]
    · rfl
    · exact otherwise

end FilterMemory

/-- What a call makes of the memory at its site, if its arguments fit. -/
def FilterCall.run (call : FilterCall) (memory : FilterMemory) : Option (Sample × FilterMemory) :=
  match call.arguments with
  | [] => none
  | input :: coefficients => FilterBank.stepMemory memory call.kind input coefficients

theorem FilterCall.run_eq_some (call : FilterCall) {memory after : FilterMemory}
    {output : Sample} (ran : call.run memory = some (output, after)) :
    ∃ input coefficients, call.arguments = input :: coefficients ∧
      FilterBank.stepMemory memory call.kind input coefficients = some (output, after) := by
  unfold run at ran
  split at ran
  · cases ran
  · rename_i input coefficients argumentsEq
    exact ⟨input, coefficients, argumentsEq, ran⟩

namespace FilterBank

def answer (bank : FilterBank) (call : FilterCall) : Option Sample :=
  (bank.process call.site call.kind call.arguments).1

def behind (bank : FilterBank) (call : FilterCall) : FilterBank :=
  (bank.process call.site call.kind call.arguments).2

def behindAll (bank : FilterBank) (calls : List FilterCall) : FilterBank :=
  calls.foldl behind bank

/-- The input and the output of a call at a site, if the call is successful. -/
def passed? (bank : FilterBank) (site : Nat) (call : FilterCall) : Option (Sample × Sample) :=
  if call.site = site then
    match call.arguments, bank.answer call with
    | input :: _, some output => some (input, output)
    | _, _ => none
  else none

/-- The inputs and outputs of the successful calls at a site, the latest first. -/
def past (bank : FilterBank) (site : Nat) : List FilterCall → List (Sample × Sample)
  | [] => []
  | call :: others => (bank.behind call).past site others ++ (bank.passed? site call).toList

/-- A call reads and writes the memory at its site only. -/
theorem process_eq (bank : FilterBank) (call : FilterCall) :
    bank.process call.site call.kind call.arguments =
      match (bank.sites[call.site]?).bind call.run with
      | none => (none, bank)
      | some (output, memory) => (some output, ⟨bank.sites.setIfInBounds call.site memory⟩) := by
  obtain ⟨sites⟩ := bank
  obtain ⟨site, kind, arguments⟩ := call
  by_cases inside : site < sites.size
  · cases arguments with
    | nil => simp [process, inside, FilterCall.run]
    | cons input coefficients =>
        cases stepped : stepMemory sites[site] kind input coefficients with
        | none => simp [process, inside, FilterCall.run, stepped]
        | some result => simp [process, inside, FilterCall.run, stepped, Array.setIfInBounds]
  · simp [process, inside]

theorem answer_eq (bank : FilterBank) (call : FilterCall) :
    bank.answer call = ((bank.sites[call.site]?).bind call.run).map Prod.fst := by
  rw [answer, process_eq]
  split
  · rename_i refused
    rw [refused]
    rfl
  · rename_i output memory stepped
    rw [stepped]
    rfl

theorem behind_of_refused {bank : FilterBank} {call : FilterCall}
    (refused : bank.answer call = none) : bank.behind call = bank := by
  rw [answer_eq, Option.map_eq_none_iff] at refused
  rw [behind, process_eq, refused]

theorem getElem?_behind_other {bank : FilterBank} {call : FilterCall} {site : Nat}
    (elsewhere : call.site ≠ site) : (bank.behind call).sites[site]? = bank.sites[site]? := by
  rw [behind, process_eq]
  split
  · rfl
  · exact Array.getElem?_setIfInBounds_ne elsewhere

theorem getElem?_behind_own (bank : FilterBank) (call : FilterCall) :
    (bank.behind call).sites[call.site]? = (bank.sites[call.site]?).map
      (fun memory => ((call.run memory).map Prod.snd).getD memory) := by
  rw [behind, process_eq]
  cases found : bank.sites[call.site]? with
  | none => simp [found]
  | some memory =>
      obtain ⟨inside, _⟩ := Array.getElem?_eq_some_iff.mp found
      cases stepped : call.run memory with
      | none => simp [stepped, found]
      | some result => simp [stepped, inside]

/-- The calls at a site are answered as if there were no others. -/
theorem past_filter {first second : FilterBank} {site : Nat}
    (same : first.sites[site]? = second.sites[site]?) (calls : List FilterCall) :
    first.past site calls = second.past site (calls.filter (fun call => call.site = site)) := by
  induction calls generalizing first second with
  | nil => rfl
  | cons call others ih =>
      by_cases own : call.site = site
      · subst own
        have answerEq : first.answer call = second.answer call := by
          rw [answer_eq, answer_eq, same]
        have behindEq : (first.behind call).sites[call.site]? =
            (second.behind call).sites[call.site]? := by
          rw [getElem?_behind_own, getElem?_behind_own, same]
        rw [List.filter_cons_of_pos (by simp), past, past, ih behindEq, passed?, passed?, answerEq]
      · have behindEq : (first.behind call).sites[site]? = second.sites[site]? :=
          (getElem?_behind_other own).trans same
        rw [List.filter_cons_of_neg (by simpa using own), past, ih behindEq, passed?, if_neg own]
        exact List.append_nil _

theorem past_concat (bank : FilterBank) (site : Nat) (calls : List FilterCall)
    (last : FilterCall) :
    bank.past site (calls ++ [last]) =
      ((bank.behindAll calls).passed? site last).toList ++ bank.past site calls := by
  induction calls generalizing bank with
  | nil => exact (List.append_nil _).symm
  | cons call others ih =>
      rw [List.cons_append, past, ih, List.append_assoc]
      rfl

/-- The memory at a site, if there is one, holds what the equations of a kind look at. -/
def Follows (kind : FilterKind) (site : Nat) (past : List (Sample × Sample))
    (bank : FilterBank) : Prop :=
  ∀ memory, bank.sites[site]? = some memory →
    memory.Remembers kind (past.map Prod.fst) (past.map Prod.snd)

theorem follows_withSites (kind : FilterKind) (site count : Nat) :
    (withSites count).Follows kind site [] := by
  intro memory found
  obtain ⟨inside, memoryEq⟩ := Array.getElem?_eq_some_iff.mp found
  rw [← memoryEq]
  simp only [withSites, Array.getElem_replicate]
  exact FilterMemory.remembers_silent kind

theorem behindAll_concat (bank : FilterBank) (calls : List FilterCall) (last : FilterCall) :
    bank.behindAll (calls ++ [last]) = (bank.behindAll calls).behind last :=
  List.foldl_append

/-- A refused call does not count. -/
theorem Follows.behind_of_refused {kind : FilterKind} {site : Nat}
    {past : List (Sample × Sample)} {bank : FilterBank} (follows : bank.Follows kind site past)
    {call : FilterCall} (refused : bank.answer call = none) :
    (bank.behind call).Follows kind site ((bank.passed? site call).toList ++ past) := by
  have passedEq : bank.passed? site call = none := by
    rw [passed?, refused]
    split
    · split
      · contradiction
      · rfl
    · rfl
  rw [passedEq, FilterBank.behind_of_refused refused]
  exact follows

theorem Follows.behind {kind : FilterKind} {site : Nat} {past : List (Sample × Sample)}
    {bank : FilterBank} (follows : bank.Follows kind site past) {call : FilterCall}
    (kindEq : call.site = site → call.kind = kind) :
    (bank.behind call).Follows kind site ((bank.passed? site call).toList ++ past) := by
  cases answered : bank.answer call with
  | none => exact follows.behind_of_refused answered
  | some output =>
      by_cases own : call.site = site
      · subst own
        have kindIs := kindEq rfl
        subst kindIs
        have stepped := answered
        rw [answer_eq] at stepped
        obtain ⟨⟨output, after⟩, steppedEq, rfl⟩ := Option.map_eq_some_iff.mp stepped
        obtain ⟨memory, found, runEq⟩ := Option.bind_eq_some_iff.mp steppedEq
        obtain ⟨input, coefficients, argumentsEq, stepEq⟩ := call.run_eq_some runEq
        have passedEq : bank.passed? call.site call = some (input, output) := by
          rw [passed?, if_pos rfl, argumentsEq, answered]
        intro current currentFound
        rw [getElem?_behind_own, found, Option.map_some, runEq] at currentFound
        cases currentFound
        rw [passedEq]
        exact ((follows memory found).step input coefficients).2 _ _ stepEq
      · rw [passed?, if_neg own]
        intro memory found
        rw [getElem?_behind_other own] at found
        exact follows memory found

theorem follows_behindAll {kind : FilterKind} {site : Nat} (count : Nat)
    {calls : List FilterCall} (oneKind : ∀ call ∈ calls, call.site = site → call.kind = kind) :
    ((withSites count).behindAll calls).Follows kind site ((withSites count).past site calls) := by
  induction calls using List.reverseRecOn with
  | nil => exact follows_withSites kind site count
  | append_singleton earlier last ih =>
      have before := ih (fun call member => oneKind call (List.mem_append_left [last] member))
      rw [past_concat, behindAll_concat]
      exact before.behind (oneKind last (by simp))

theorem size_behindAll (bank : FilterBank) (calls : List FilterCall) :
    (bank.behindAll calls).size = bank.size := by
  induction calls generalizing bank with
  | nil => rfl
  | cons call others ih => exact (ih (bank.behind call)).trans (size_process ..)

/--
A successful call answers what the equation of its kind makes of the input and of the inputs
and outputs of the earlier successful calls at its site, as long as all of them are of one
kind.  There is no answer where there is no such site or the arguments do not fit; then
nothing is changed.  What is called at other sites makes no difference.
-/
theorem answer_by_equation (count : Nat) (calls : List FilterCall) (call : FilterCall)
    (oneKind : ∀ earlier ∈ calls, earlier.site = call.site → earlier.kind = call.kind) :
    let bank := (withSites count).behindAll calls
    let past := (withSites count).past call.site calls
    let answer := bank.process call.site call.kind call.arguments
    (∀ input coefficients, call.site < count → call.arguments = input :: coefficients →
      answer.1 = call.kind.equation coefficients (input :: past.map Prod.fst)
        (past.map Prod.snd)) ∧
    (count ≤ call.site ∨ call.arguments = [] → answer.1 = none) ∧
    (answer.1 = none → answer.2 = bank) ∧
    past = (withSites count).past call.site
      (calls.filter (fun earlier => earlier.site = call.site)) := by
  intro bank past answer
  have sizeEq : bank.sites.size = count :=
    (size_behindAll (withSites count) calls).trans Array.size_replicate
  have answerEq : answer.1 = ((bank.sites[call.site]?).bind call.run).map Prod.fst :=
    bank.answer_eq call
  refine ⟨?_, ?_, behind_of_refused, past_filter rfl calls⟩
  · intro input coefficients inside argumentsEq
    have found := Array.getElem?_eq_getElem (sizeEq.symm ▸ inside : call.site < bank.sites.size)
    have remembers := follows_behindAll count oneKind _ found
    rw [answerEq, found, Option.bind_some, FilterCall.run, argumentsEq]
    exact (remembers.step input coefficients).1
  · rintro (outside | argumentsEq)
    · rw [answerEq, Array.getElem?_eq_none (sizeEq.symm ▸ outside)]
      rfl
    · rw [answerEq]
      cases bank.sites[call.site]? with
      | none => rfl
      | some memory => simp [FilterCall.run, argumentsEq]

/-- A kernel that grows to three taps finds all inputs of its site, and none of those between. -/
theorem answer_by_equation_growingKernel :
    let calls : List FilterCall :=
      [⟨0, .fir, [1, 1]⟩, ⟨1, .biquad, [7, 1, 0, 0, 0, 0]⟩, ⟨0, .fir, []⟩, ⟨0, .fir, [2, 1, 1]⟩]
    let call : FilterCall := ⟨0, .fir, [3, 4, 2, 8]⟩
    let bank := (withSites 2).behindAll calls
    (∀ earlier ∈ calls, earlier.site = call.site → earlier.kind = call.kind) ∧
      call.site < 2 ∧
      (bank.process call.site call.kind call.arguments).1 = some 24 := by
  intro calls call bank
  have oneKind : ∀ earlier ∈ calls, earlier.site = call.site → earlier.kind = call.kind := by
    decide
  refine ⟨oneKind, by decide, ?_⟩
  rw [(answer_by_equation 2 calls call oneKind).1 3 [4, 2, 8] (by decide) rfl]
  decide +kernel

end FilterBank

end SignalPatch
