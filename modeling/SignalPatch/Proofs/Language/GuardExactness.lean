import SignalPatch.Proofs.Language.OperandNeed
import SignalPatch.Proofs.Machine.Tick

/-!
# The guard on compiled patches

The runtime guard aborts the ticks of a compiled patch exactly when the operand
need of its statements exceeds the capacity of the stack, and always for an
overflow.  So it aborts all ticks of a loaded patch or none.
-/

namespace SignalPatch

/-- The need of its statements decides how a pass over the program of a patch ends. -/
theorem Patch.ending_run {statements : List Statement} {patch : Patch}
    (assembled : Patch.ofStatements statements = .ok patch) {memory : Memory}
    (sitesEq : memory.filters.size = patch.program.filterSites)
    (emptyEq : memory.stack.size = 0) :
    Memory.ending (Memory.run patch.program.instructions memory) =
      Expression.endingWithin memory.stack.capacity (Statement.needOfAll statements) 0 := by
  obtain ⟨faultless, codeEq, countEq, _⟩ := Patch.ofStatements_eq_ok assembled
  rw [(Memory.run_spec _ _).1, codeEq, sitesEq, emptyEq, countEq]
  exact Statement.height_codeOfAll _ _ _ statements faultless 0 (by omega)

namespace Machine

theorem abort?_of_ending {machine : Machine} {live : Frame} {needed : Nat}
    (active : machine.isIdle = false)
    (endingEq : Memory.ending (machine.verdict live) =
      Expression.endingWithin machine.memory.stack.capacity needed 0) :
    machine.abort? live =
      if machine.memory.stack.capacity < needed then some (.stack .overflow) else none := by
  simp only [abort?, active, Bool.false_eq_true, ↓reduceIte]
  by_cases fits : needed ≤ machine.memory.stack.capacity
  · rw [Expression.endingWithin_of_le fits] at endingEq
    rw [if_neg (by omega)]
    cases verdictEq : machine.verdict live with
    | ok memory => rfl
    | error aborted =>
        rw [verdictEq] at endingEq
        cases endingEq
  · rw [Expression.endingWithin_of_lt (by omega)] at endingEq
    rw [if_pos (by omega)]
    cases verdictEq : machine.verdict live with
    | ok memory =>
        rw [verdictEq] at endingEq
        cases endingEq
    | error aborted =>
        rw [verdictEq] at endingEq
        exact congrArg some (Except.error.inj endingEq)

/--
Every tick of a running machine with a compiled patch is aborted by an overflow,
or is not aborted at all: that depends on the need of the statements and on the
capacity of the stack, and on nothing else.
-/
theorem abort_iff_need_exceeds_capacity {text : String} {patch : Patch}
    (compiled : compile text = .ok patch) (nonempty : patch.program.isEmpty = false) :
    ∃ statements, parse text = .ok statements ∧ ∀ config : EngineConfig,
      (∀ machine, Reachable config machine → machine.Runs patch.program → ∀ live,
        machine.abort? live =
          if max config.stackCapacity 1 < Statement.needOfAll statements then
            some (.stack .overflow)
          else none) ∧
      ((∀ machine, Reachable config machine → machine.Runs patch.program → ∀ live,
          (machine.tick live).1 = .silence ∧
            (machine.tick live).2.guardTrips = machine.guardTrips + 1) ∨
        (∀ machine, Reachable config machine → machine.Runs patch.program → ∀ live,
          machine.abort? live = none ∧
            (machine.tick live).2.guardTrips = machine.guardTrips)) := by
  obtain ⟨statements, parsed, assembled⟩ := compile_eq_ok compiled
  refine ⟨statements, parsed, ?_⟩
  intro config
  have exact : ∀ machine, Reachable config machine → machine.Runs patch.program →
      ∀ live, machine.abort? live =
        if max config.stackCapacity 1 < Statement.needOfAll statements then
          some (.stack .overflow)
        else none := by
    intro machine reachable runs live
    obtain ⟨running, loaded⟩ := runs
    obtain ⟨capacityEq, sitesEq⟩ := reachable.fitted
    rw [loaded] at sitesEq
    rw [← capacityEq]
    apply abort?_of_ending (isIdle_eq_false_iff.mpr ⟨running, loaded ▸ nonempty⟩)
    have boundSites : (machine.bound live).filters.size = patch.program.filterSites := sitesEq
    have endingEq := Patch.ending_run assembled boundSites (OperandStack.size_clear _)
    rw [← loaded] at endingEq
    exact endingEq
  refine ⟨exact, ?_⟩
  by_cases exceeds : max config.stackCapacity 1 < Statement.needOfAll statements
  · left
    intro machine reachable runs live
    have aborts := exact machine reachable runs live
    rw [if_pos exceeds] at aborts
    exact tick_of_abort aborts
  · right
    intro machine reachable runs live
    have goes := exact machine reachable runs live
    rw [if_neg exceeds] at goes
    exact ⟨goes, tick_of_no_abort goes⟩

theorem abort_of_sum :
    ∃ patch, compile "out = in + 1" = .ok patch ∧ patch.program.isEmpty = false ∧
      ∀ config, config.stackCapacity = 1 → ∀ live,
        (started config patch).abort? live = some (.stack .overflow) := by
  have compiled : compile "out = in + 1" =
      .ok ⟨⟨[.read 1, .load 1, .operate .add, .write 0], 0⟩, .ofNames ["out", "in"]⟩ := by
    decide +kernel
  have needEq : (parse "out = in + 1").toOption.map Statement.needOfAll = some 2 := by
    decide +kernel
  obtain ⟨statements, parsed, exact⟩ := abort_iff_need_exceeds_capacity compiled rfl
  have needed : Statement.needOfAll statements = 2 := by
    rw [parsed] at needEq
    exact Option.some.inj needEq
  refine ⟨_, compiled, rfl, ?_⟩
  intro config oneCell live
  have aborts := (exact config).1 _ (reachable_started _ _) (runs_started _ _) live
  rw [needed, oneCell] at aborts
  exact aborts

end Machine

end SignalPatch
