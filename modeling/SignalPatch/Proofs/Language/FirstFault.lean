import SignalPatch.Proofs.Language.Emission
import SignalPatch.Proofs.Language.LongestLexeme

/-!
# The first fault

Compiling can find a fault at the targets of assignments and at calls, and nowhere else.
A list of statements is accepted if there is none, and is otherwise refused with the first
of them in the order of the text, where a call comes before its arguments.
-/

namespace SignalPatch

/-- What can be wrong with a list of statements: the target of an assignment, or a call. -/
inductive Checkpoint where
  | target (name : String) (position : Position)
  | call (name : String) (arguments : List Expression) (position : Position)

namespace Expression

mutual

/-- The calls in an expression, each before those in its arguments. -/
def checkpoints : Expression → List Checkpoint
  | literal .. | reference .. => []
  | negate operand _ => operand.checkpoints
  | binary _ left right _ => left.checkpoints ++ right.checkpoints
  | call name arguments position => .call name arguments position :: checkpointsOfAll arguments

def checkpointsOfAll : List Expression → List Checkpoint
  | [] => []
  | expression :: others => expression.checkpoints ++ checkpointsOfAll others

end

end Expression

/-- The checkpoints of a statement: the target of an assignment before its value. -/
def Statement.checkpoints : Statement → List Checkpoint
  | assign target value position => .target target position :: value.checkpoints
  | bare value => value.checkpoints

/-- The argument counts that a function takes: a filter takes its input and its coefficients. -/
def Builtin.bounds (function : Builtin) : Arity :=
  match function.lowering with
  | .opcode opcode => ⟨opcode.operands, opcode.operands⟩
  | .filter .fir => ⟨2, 65⟩
  | .filter .biquad => ⟨6, 6⟩

theorem Builtin.arity_eq_bounds (function : Builtin) : function.arity = function.bounds := by
  cases function <;> rfl

/-- The names of variables that are driven from outside. -/
def Port.drivenNames : List String :=
  ["in", "inl", "inr", "slider1", "slider2", "slider3", "slider4"]

theorem Port.isReadOnly_iff (name : String) : isReadOnly name = true ↔ name ∈ drivenNames := by
  simp [isReadOnly, drivenNames, input, inputLeft, inputRight, sliders, or_assoc]

namespace Checkpoint

def Valid : Checkpoint → Prop
  | target name _ => name ∉ Port.drivenNames
  | call name arguments _ =>
      ∃ function : Builtin, function.name = name ∧
        function.bounds.least ≤ arguments.length ∧ arguments.length ≤ function.bounds.most

/-- The fault at a checkpoint: a surplus argument is reported where it stands. -/
inductive Faulty : Checkpoint → Fault → Prop
  | driven {name : String} {position : Position} (isDriven : name ∈ Port.drivenNames) :
      Faulty (.target name position) ⟨.assignedInput name, position⟩
  | unknown {name : String} {arguments : List Expression} {position : Position}
      (unnamed : ∀ function : Builtin, function.name ≠ name) :
      Faulty (.call name arguments position) ⟨.unknownFunction name, position⟩
  | missing {name : String} {arguments : List Expression} {position : Position}
      (function : Builtin) (named : function.name = name)
      (few : arguments.length < function.bounds.least) :
      Faulty (.call name arguments position)
        ⟨.wrongArgumentCount name function.bounds arguments.length, position⟩
  | surplus {name : String} {arguments : List Expression} {position : Position}
      (function : Builtin) (named : function.name = name) (first : Expression)
      (firstEq : arguments[function.bounds.most]? = some first) :
      Faulty (.call name arguments position)
        ⟨.wrongArgumentCount name function.bounds arguments.length, first.position⟩

/-- The fault at a checkpoint, if there is one. -/
def fault? : Checkpoint → Option Fault
  | target name position =>
      if Port.isReadOnly name then some ⟨.assignedInput name, position⟩ else none
  | call name arguments position =>
      match Assembly.resolveCall name arguments position with
      | .error fault => some fault
      | .ok _ => none

variable {name : String} {arguments : List Expression} {position : Position}

theorem call_unknown (unnamed : ∀ function : Builtin, function.name ≠ name) :
    (call name arguments position).fault? = some ⟨.unknownFunction name, position⟩ := by
  rw [fault?, Assembly.resolveCall, Builtin.ofName?_eq_none_iff.mpr unnamed]

theorem call_accepted {function : Builtin} (named : function.name = name)
    (enough : function.bounds.least ≤ arguments.length)
    (notTooMany : arguments.length ≤ function.bounds.most) :
    (call name arguments position).fault? = none := by
  rw [fault?, Assembly.resolveCall, Builtin.ofName?_eq_some_iff.mpr named]
  simp [Builtin.arity_eq_bounds, Arity.accepts, enough, notTooMany]

theorem call_missing {function : Builtin} (named : function.name = name)
    (few : arguments.length < function.bounds.least) :
    (call name arguments position).fault? =
      some ⟨.wrongArgumentCount name function.bounds arguments.length, position⟩ := by
  have boundsLe : function.bounds.least ≤ function.bounds.most := by
    cases function <;> decide
  have noSurplus : arguments[function.bounds.most]? = none :=
    List.getElem?_eq_none (by omega)
  rw [fault?, Assembly.resolveCall, Builtin.ofName?_eq_some_iff.mpr named]
  simp [Builtin.arity_eq_bounds, Arity.accepts, Nat.not_le_of_lt few, noSurplus]

theorem call_surplus {function : Builtin} (named : function.name = name) {first : Expression}
    (firstEq : arguments[function.bounds.most]? = some first) :
    (call name arguments position).fault? =
      some ⟨.wrongArgumentCount name function.bounds arguments.length, first.position⟩ := by
  obtain ⟨many, _⟩ := List.getElem?_eq_some_iff.mp firstEq
  rw [fault?, Assembly.resolveCall, Builtin.ofName?_eq_some_iff.mpr named]
  simp [Builtin.arity_eq_bounds, Arity.accepts, Nat.not_le_of_lt many, firstEq]

theorem Valid.fault?_eq {point : Checkpoint} (valid : point.Valid) : point.fault? = none := by
  cases point with
  | target name position =>
      rw [fault?, if_neg (fun readOnly => valid ((Port.isReadOnly_iff name).mp readOnly))]
  | call name arguments position =>
      obtain ⟨function, named, enough, notTooMany⟩ := valid
      exact call_accepted named enough notTooMany

theorem Faulty.fault?_eq {point : Checkpoint} {fault : Fault} (faulty : point.Faulty fault) :
    point.fault? = some fault := by
  cases faulty with
  | driven isDriven => rw [fault?, if_pos ((Port.isReadOnly_iff _).mpr isDriven)]
  | unknown unnamed => exact call_unknown unnamed
  | missing function named few => exact call_missing named few
  | surplus function named first firstEq => exact call_surplus named firstEq

theorem valid_or_faulty (point : Checkpoint) :
    point.Valid ∨ ∃ fault, point.Faulty fault := by
  cases point with
  | target name position =>
      by_cases isDriven : name ∈ Port.drivenNames
      · exact Or.inr ⟨_, .driven isDriven⟩
      · exact Or.inl isDriven
  | call name arguments position =>
      by_cases builtin : ∃ function : Builtin, function.name = name
      · obtain ⟨function, named⟩ := builtin
        by_cases few : arguments.length < function.bounds.least
        · exact Or.inr ⟨_, .missing function named few⟩
        · cases firstEq : arguments[function.bounds.most]? with
          | none =>
              have notTooMany := List.getElem?_eq_none_iff.mp firstEq
              exact Or.inl ⟨function, named, Nat.le_of_not_lt few, notTooMany⟩
          | some first => exact Or.inr ⟨_, .surplus function named first firstEq⟩
      · exact Or.inr ⟨_, .unknown (fun function named => builtin ⟨function, named⟩)⟩

theorem fault?_eq_none_iff (point : Checkpoint) : point.fault? = none ↔ point.Valid := by
  refine ⟨?_, Valid.fault?_eq⟩
  intro noneFound
  rcases point.valid_or_faulty with valid | ⟨fault, faulty⟩
  · exact valid
  · rw [faulty.fault?_eq] at noneFound
    cases noneFound

theorem fault?_eq_some_iff (point : Checkpoint) (fault : Fault) :
    point.fault? = some fault ↔ point.Faulty fault := by
  refine ⟨?_, Faulty.fault?_eq⟩
  intro found
  rcases point.valid_or_faulty with valid | ⟨other, faulty⟩
  · rw [valid.fault?_eq] at found
    cases found
  · rw [faulty.fault?_eq] at found
    exact Option.some.inj found ▸ faulty

end Checkpoint

namespace Expression

mutual

theorem firstFault?_eq (source : Expression) :
    source.firstFault? = source.checkpoints.findSome? Checkpoint.fault? := by
  cases source with
  | literal | reference => rfl
  | negate operand position => exact firstFault?_eq operand
  | binary operator left right position =>
      rw [firstFault?, checkpoints, List.findSome?_append, firstFault?_eq left,
        firstFault?_eq right]
  | call name arguments position =>
      rw [firstFault?, checkpoints, List.findSome?_cons, firstFaultOfAll?_eq arguments,
        Checkpoint.fault?]
      cases Assembly.resolveCall name arguments position with
      | error fault => rfl
      | ok function => rfl

theorem firstFaultOfAll?_eq (sources : List Expression) :
    firstFaultOfAll? sources = (checkpointsOfAll sources).findSome? Checkpoint.fault? := by
  cases sources with
  | nil => rfl
  | cons source others =>
      rw [firstFaultOfAll?, checkpointsOfAll, List.findSome?_append, firstFault?_eq source,
        firstFaultOfAll?_eq others]

end

end Expression

namespace Statement

def checkpointsOfAll (statements : List Statement) : List Checkpoint :=
  statements.flatMap checkpoints

theorem firstFault?_eq (source : Statement) :
    source.firstFault? = source.checkpoints.findSome? Checkpoint.fault? := by
  cases source with
  | assign target value position =>
      rw [firstFault?, checkpoints, List.findSome?_cons, Checkpoint.fault?,
        Expression.firstFault?_eq]
      split
      · rfl
      · rfl
  | bare value => exact value.firstFault?_eq

theorem firstFaultOfAll?_eq (sources : List Statement) :
    firstFaultOfAll? sources = (checkpointsOfAll sources).findSome? Checkpoint.fault? := by
  induction sources with
  | nil => rfl
  | cons source others ih =>
      rw [firstFaultOfAll?, checkpointsOfAll, List.flatMap_cons, List.findSome?_append,
        firstFault?_eq, ih, checkpointsOfAll]

end Statement

/-- A list of statements becomes a patch, or is refused with the first fault that is found. -/
theorem Patch.ofStatements_eq_findSome? (statements : List Statement) :
    match (Statement.checkpointsOfAll statements).findSome? Checkpoint.fault? with
    | some fault => Patch.ofStatements statements = .error fault
    | none => ∃ patch, Patch.ofStatements statements = .ok patch := by
  rw [← Statement.firstFaultOfAll?_eq, Patch.ofStatements_eq]
  cases Statement.firstFaultOfAll? statements with
  | some fault => rfl
  | none => exact ⟨_, rfl⟩

/--
A list of statements is accepted exactly if no assignment is to a variable that is driven
from outside, and every call is of a built-in function with as many arguments as it takes.
Otherwise it is refused with the fault at the first checkpoint that is not valid.
-/
theorem Patch.ofStatements_first_fault (statements : List Statement) :
    ((∃ patch, Patch.ofStatements statements = .ok patch) ↔
      ∀ point ∈ Statement.checkpointsOfAll statements, point.Valid) ∧
    ∀ fault, Patch.ofStatements statements = .error fault ↔
      ∃ before point after, Statement.checkpointsOfAll statements = before ++ point :: after ∧
        point.Faulty fault ∧ ∀ earlier ∈ before, earlier.Valid := by
  have outcome := Patch.ofStatements_eq_findSome? statements
  simp only [← Checkpoint.fault?_eq_none_iff, ← Checkpoint.fault?_eq_some_iff]
  rw [← List.findSome?_eq_none_iff]
  simp only [← List.findSome?_eq_some_iff]
  cases found : (Statement.checkpointsOfAll statements).findSome? Checkpoint.fault? with
  | none =>
      rw [found] at outcome
      obtain ⟨patch, compiled⟩ := outcome
      simp [compiled]
  | some fault =>
      rw [found] at outcome
      simp [show Patch.ofStatements statements = .error fault from outcome]

/-- A surplus argument is reported before the unknown function in the argument that is not. -/
example (outer inner surplus stop : Position) :
    Patch.ofStatements
        [.bare (.call "sin" [.call "foo" [] inner, .reference "x" surplus] outer),
          .assign "in" (.literal 1 stop) stop] =
      .error ⟨.wrongArgumentCount "sin" ⟨1, 1⟩ 2, surplus⟩ := by
  rfl

end SignalPatch
