import SignalPatch.Proofs.Language.Emission
import SignalPatch.Proofs.Machine.Height

/-!
# How many operands an expression needs

The need of an expression is the height that its code asks for above what is on
the stack already.  Code finds room exactly when its need fits into the
capacity; then an expression leaves one value more, a statement leaves the stack
as it was, and otherwise the code is aborted by an overflow.
-/

namespace SignalPatch

namespace Expression

mutual

/-- The height that the code of an expression asks for. -/
def need : Expression → Nat
  | literal .. | reference .. => 1
  | negate operand _ => operand.need
  | binary _ left right _ => max left.need (1 + right.need)
  | call _ arguments _ => needFrom 0 arguments

/-- The height for arguments, of which the first stands above so many others. -/
def needFrom (index : Nat) : List Expression → Nat
  | [] => 0
  | expression :: others => max (index + expression.need) (needFrom (index + 1) others)

end

end Expression

namespace Statement

/-- The largest height that one of the statements asks for. -/
def needOfAll (statements : List Statement) : Nat :=
  (statements.map (fun statement => statement.value.need)).foldr max 0

end Statement

namespace Opcode

theorem operands_pos (opcode : Opcode) : 0 < opcode.operands := by
  cases opcode <;> decide

end Opcode

namespace Builtin

/-- A function that is computed by an opcode takes the operands of the opcode. -/
theorem count_of_accepts_opcode {function : Builtin} {opcode : Opcode} {count : Nat}
    (lowered : function.lowering = .opcode opcode)
    (accepted : function.arity.accepts count = true) : count = opcode.operands := by
  simp only [arity, lowered, Arity.exactly, Arity.accepts, Bool.and_eq_true,
    decide_eq_true_eq] at accepted
  omega

theorem fits_of_accepts_filter {function : Builtin} {kind : FilterKind} {count : Nat}
    (lowered : function.lowering = .filter kind)
    (accepted : function.arity.accepts count = true) :
    0 < count ∧ FilterBank.fits kind count = true := by
  cases kind with
  | fir =>
      simp only [arity, lowered, FilterKind.arity, Arity.accepts, Bool.and_eq_true,
        decide_eq_true_eq] at accepted
      simp only [FilterBank.fits, Bool.and_eq_true, decide_eq_true_eq]
      omega
  | biquad =>
      simp only [arity, lowered, FilterKind.arity, Arity.exactly, Arity.accepts,
        Bool.and_eq_true, decide_eq_true_eq] at accepted
      simp only [FilterBank.fits, beq_iff_eq]
      omega

theorem results_of_lowering {function : Builtin} {opcode : Opcode}
    (lowered : function.lowering = .opcode opcode) : opcode.results = 1 := by
  cases function <;> cases lowered <;> rfl

theorem count_pos_of_accepts {function : Builtin} {count : Nat}
    (accepted : function.arity.accepts count = true) : 0 < count := by
  cases lowered : function.lowering with
  | opcode opcode =>
      rw [count_of_accepts_opcode lowered accepted]
      exact opcode.operands_pos
  | filter kind => exact (fits_of_accepts_filter lowered accepted).1

/-- The instruction of an accepted call replaces its arguments by one value. -/
theorem height_instruction {function : Builtin} {count : Nat}
    (accepted : function.arity.accepts count = true) {site sites : Nat}
    (free : site + function.sites ≤ sites) (capacity below : Nat) :
    (function.instruction count site).height capacity sites (below + count) =
      .ok (below + 1) := by
  cases lowered : function.lowering with
  | opcode opcode =>
      have countEq := count_of_accepts_opcode lowered accepted
      subst countEq
      simp [instruction, lowered, Instruction.height, results_of_lowering lowered]
  | filter kind =>
      obtain ⟨_, fits⟩ := fits_of_accepts_filter lowered accepted
      have inside : site < sites := by
        simp only [Builtin.sites, lowered] at free
        omega
      have enough : ¬ below + count < count := by omega
      simp [instruction, lowered, Instruction.height, fits, inside, enough]

end Builtin

namespace Expression

theorem need_pos (source : Expression) (faultless : source.firstFault? = none) :
    0 < source.need := by
  cases source with
  | literal value position => exact Nat.one_pos
  | reference name position => exact Nat.one_pos
  | negate operand position => exact need_pos operand faultless
  | binary operator left right position =>
      simp only [need]
      omega
  | call name arguments position =>
      simp only [firstFault?] at faultless
      split at faultless
      · cases faultless
      · rename_i function resolved
        obtain ⟨_, accepted⟩ := Assembly.resolveCall_eq_ok resolved
        cases arguments with
        | nil => exact absurd (Builtin.count_pos_of_accepts accepted) (Nat.lt_irrefl 0)
        | cons first others =>
            simp only [firstFaultOfAll?, Option.or_eq_none_iff] at faultless
            have firstPos := need_pos first faultless.1
            simp only [need, needFrom]
            omega

/-- How code ends that leaves the stack so high if what it needs has room. -/
def endingWithin (capacity needed behind : Nat) : Except Guard Nat :=
  if needed ≤ capacity then .ok behind else .error (.stack .overflow)

theorem endingWithin_of_le {capacity needed behind : Nat} (fits : needed ≤ capacity) :
    endingWithin capacity needed behind = .ok behind :=
  if_pos fits

theorem endingWithin_of_lt {capacity needed behind : Nat} (exceeds : capacity < needed) :
    endingWithin capacity needed behind = .error (.stack .overflow) :=
  if_neg (by omega)

/-- Code that is followed by other code needs what one of the two needs. -/
theorem endingWithin_bind {capacity first middle needed behind : Nat}
    {next : Nat → Except Guard Nat} (firstLe : first ≤ needed)
    (nextEq : first ≤ capacity → next middle = endingWithin capacity needed behind) :
    (endingWithin capacity first middle).bind next =
      endingWithin capacity needed behind := by
  by_cases fits : first ≤ capacity
  · rw [endingWithin_of_le fits]
    exact nextEq fits
  · rw [endingWithin_of_lt (by omega), endingWithin_of_lt (by omega)]
    rfl

/-- Of what two codes need, only what the second needs is in question behind the first. -/
theorem endingWithin_of_first_le {capacity first second needed behind : Nat}
    (fits : first ≤ capacity) (neededEq : needed = max first second) :
    endingWithin capacity second behind = endingWithin capacity needed behind := by
  by_cases secondFits : second ≤ capacity
  · rw [endingWithin_of_le secondFits, endingWithin_of_le (by omega)]
  · rw [endingWithin_of_lt (by omega), endingWithin_of_lt (by omega)]

variable (capacity sites : Nat)

mutual

/-- The code of an expression leaves one value more exactly when its need has room. -/
theorem height_code (slot : String → Nat) (source : Expression)
    (faultless : source.firstFault? = none) (site : Nat)
    (free : site + source.sites ≤ sites) (below : Nat) (room : below ≤ capacity) :
    Memory.heightBehind capacity sites below (source.code slot site) =
      endingWithin capacity (below + source.need) (below + 1) := by
  cases source with
  | literal value position => exact Memory.heightBehind_singleton ..
  | reference name position => exact Memory.heightBehind_singleton ..
  | negate operand position =>
      have operandEq := height_code slot operand faultless site free below room
      rw [code, Memory.heightBehind_append, operandEq]
      refine endingWithin_bind (Nat.le_refl _) ?_
      intro fits
      rw [need, endingWithin_of_le fits]
      simp [Instruction.height, Opcode.operands, Opcode.results]
  | binary operator left right position =>
      simp only [firstFault?, Option.or_eq_none_iff] at faultless
      simp only [Expression.sites] at free
      have leftPos := need_pos left faultless.1
      have leftEq := height_code slot left faultless.1 site (by omega) below room
      have operandsEq : Memory.heightBehind capacity sites below
          (left.code slot site ++ right.code slot (site + left.sites)) =
            endingWithin capacity (below + max left.need (1 + right.need)) (below + 2) := by
        rw [Memory.heightBehind_append, leftEq]
        refine endingWithin_bind (by omega) ?_
        intro leftFits
        -- the value of the left operand stays below the code of the right one
        have rightEq := height_code slot right faultless.2 (site + left.sites) (by omega)
          (below + 1) (by omega)
        exact rightEq.trans (endingWithin_of_first_le leftFits (by omega))
      rw [code, Memory.heightBehind_append, operandsEq, need]
      refine endingWithin_bind (Nat.le_refl _) ?_
      intro fits
      rw [endingWithin_of_le fits]
      cases operator <;> simp [Instruction.height, Opcode.operands, Opcode.results,
        BinaryOperator.opcode]
  | call name arguments position =>
      simp only [firstFault?] at faultless
      split at faultless
      · cases faultless
      · rename_i function resolved
        obtain ⟨named, accepted⟩ := Assembly.resolveCall_eq_ok resolved
        simp only [Expression.sites, Builtin.sitesOfName, named, Option.elim_some] at free
        have argumentsEq := height_codeOfAll slot arguments faultless site (by omega) below 0
          room
        rw [Nat.add_zero] at argumentsEq
        rw [code, Memory.heightBehind_append, argumentsEq, need]
        refine endingWithin_bind (Nat.le_refl _) ?_
        intro fits
        rw [endingWithin_of_le fits, Builtin.callCode, named, Option.elim_some,
          Memory.heightBehind_singleton]
        exact Builtin.height_instruction accepted (by omega) capacity below

theorem height_codeOfAll (slot : String → Nat) (sources : List Expression)
    (faultless : firstFaultOfAll? sources = none) (site : Nat)
    (free : site + sitesOfAll sources ≤ sites) (below index : Nat)
    (room : below + index ≤ capacity) :
    Memory.heightBehind capacity sites (below + index) (codeOfAll slot site sources) =
      endingWithin capacity (below + needFrom index sources)
        (below + index + sources.length) := by
  cases sources with
  | nil =>
      have fits : below + needFrom index [] ≤ capacity := by
        simp only [needFrom]
        omega
      rw [endingWithin_of_le fits]
      rfl
  | cons source others =>
      simp only [firstFaultOfAll?, Option.or_eq_none_iff] at faultless
      simp only [sitesOfAll] at free
      have sourcePos := need_pos source faultless.1
      have sourceEq := height_code slot source faultless.1 site (by omega) (below + index) room
      rw [codeOfAll, Memory.heightBehind_append, sourceEq, needFrom]
      refine endingWithin_bind (by omega) ?_
      intro sourceFits
      have othersEq := height_codeOfAll slot others faultless.2 (site + source.sites) (by omega)
        below (index + 1) (by omega)
      have heightEq : below + index + 1 + others.length =
          below + index + (source :: others).length := by
        simp only [List.length_cons]
        omega
      rw [show below + index + 1 = below + (index + 1) from Nat.add_assoc .., othersEq,
        ← heightEq]
      exact endingWithin_of_first_le sourceFits (by omega)

end

end Expression

namespace Statement

theorem firstFault?_value {statement : Statement} (faultless : statement.firstFault? = none) :
    statement.value.firstFault? = none := by
  cases statement with
  | bare value => exact faultless
  | assign target value position =>
      simp only [firstFault?] at faultless
      split at faultless
      · cases faultless
      · exact faultless

/-- A statement takes the value of its expression from the stack. -/
theorem height_consumption (capacity sites : Nat) (slot : String → Nat)
    (statement : Statement) (below : Nat) :
    (statement.consumption slot).height capacity sites (below + 1) = .ok below := by
  cases statement <;> rfl

/-- The code of a statement needs the room of its expression, and leaves no value. -/
theorem height_code (capacity sites : Nat) (slot : String → Nat) (statement : Statement)
    (faultless : statement.firstFault? = none) (site : Nat)
    (free : site + statement.value.sites ≤ sites) (below : Nat) (room : below ≤ capacity) :
    Memory.heightBehind capacity sites below (statement.code slot site) =
      Expression.endingWithin capacity (below + statement.value.need) below := by
  have valueEq := Expression.height_code capacity sites slot statement.value
    (firstFault?_value faultless) site free below room
  rw [code, Memory.heightBehind_append, valueEq]
  refine Expression.endingWithin_bind (Nat.le_refl _) ?_
  intro fits
  rw [Expression.endingWithin_of_le fits, Memory.heightBehind_singleton, height_consumption]

/-- The code of statements leaves the stack empty exactly when what they need has room. -/
theorem height_codeOfAll (capacity sites : Nat) (slot : String → Nat)
    (statements : List Statement) (faultless : firstFaultOfAll? statements = none)
    (site : Nat) (free : site + sitesOfAll statements ≤ sites) :
    Memory.heightBehind capacity sites 0 (codeOfAll slot site statements) =
      Expression.endingWithin capacity (needOfAll statements) 0 := by
  induction statements generalizing site with
  | nil => exact (Expression.endingWithin_of_le (Nat.zero_le capacity)).symm
  | cons statement others ih =>
      simp only [firstFaultOfAll?, Option.or_eq_none_iff] at faultless
      simp only [sitesOfAll] at free
      have statementEq := height_code capacity sites slot statement faultless.1 site (by omega) 0
        (Nat.zero_le capacity)
      have othersEq := ih faultless.2 (site + statement.value.sites) (by omega)
      rw [codeOfAll, Memory.heightBehind_append, statementEq, Nat.zero_add]
      refine Expression.endingWithin_bind (Nat.le_max_left ..) ?_
      intro statementFits
      exact othersEq.trans (Expression.endingWithin_of_first_le statementFits rfl)

end Statement

end SignalPatch
