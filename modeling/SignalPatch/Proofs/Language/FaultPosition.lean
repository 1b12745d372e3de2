import Mathlib.Order.Bounds.Basic
import SignalPatch.Proofs.Language.StatementSequence
import SignalPatch.Proofs.Language.StuckReaders

/-!
# Where texts are refused

The tokens before a fault of the grammar start some text, but those up to and
including the one at the fault start none.  Here the grammar is that without limits
on size, and the end of a text counts as a token.  The statements before the one
with the fault are those that are read if the text ends there.
-/

namespace SignalPatch

/-- The tokens of a text, and behind them its end. -/
def terminated (tokens : List Token) : List (Option Token) :=
  tokens.map some ++ [none]

/-- What some text of the grammar starts with, whatever its size. -/
def Viable (front : List (Option Token)) : Prop :=
  ∃ script : Script, front <+: terminated script.yield

def TokenStream.positionAt (stream : TokenStream) (index : Nat) : Position :=
  stream.tokens[index]?.elim stream.stop Token.position

/-- The kind of a token, where the end is like a separator. -/
def terminatedKind (token : Option Token) : TokenKind :=
  token.elim .separator Token.kind

theorem map_terminatedKind (tokens : List Token) :
    (tokens.map some).map terminatedKind = tokens.map Token.kind := by
  rw [List.map_map]
  rfl

theorem terminated_append (first second : List Token) :
    terminated (first ++ second) = first.map some ++ terminated second := by
  simp [terminated]

theorem exists_terminated_eq (tokens : List Token) :
    ∃ others, terminated tokens = tokens.head? :: others := by
  cases tokens with
  | nil => exact ⟨[], rfl⟩
  | cons token others => exact ⟨terminated others, rfl⟩

theorem take_terminated (before rest : List Token) :
    (terminated (before ++ rest)).take before.length = before.map some := by
  rw [terminated_append]
  exact List.take_left' (List.length_map _)

theorem TokenStream.positionAt_length (before : List Token) (rest : Pending) :
    positionAt ⟨before ++ rest.tokens, rest.stop⟩ before.length = rest.position := by
  rw [positionAt, List.getElem?_append_right (Nat.le_refl _), Nat.sub_self]
  unfold Pending.position
  cases rest.tokens <;> rfl

namespace Viable

variable {front : List (Option Token)}

theorem of_prefix {shorter : List (Option Token)} (viable : Viable front)
    (isFront : shorter <+: front) : Viable shorter := by
  obtain ⟨script, starts⟩ := viable
  exact ⟨script, isFront.trans starts⟩

theorem isSome_after? (viable : Viable front) :
    (Point.start.after? (front.map terminatedKind)).isSome := by
  obtain ⟨script, starts⟩ := viable
  apply Point.isSome_after?_of_prefix (starts.map terminatedKind)
  rw [terminated, List.map_append, map_terminatedKind]
  change (Point.start.after? (script.yield.map Token.kind ++ [.separator])).isSome
  rw [script.after?_yield]
  rfl

section Script

variable {script : Script}
  (apart : ∀ last ∈ script.yield.getLast?, last.kind = .separator)

include apart

/-- Behind a separator every start of a statement is viable. -/
theorem of_isStart {consumed : List Token} (isStart : Sentence.IsStart consumed) :
    Viable ((script.yield ++ consumed).map some) := by
  obtain ⟨sentence, starts⟩ := isStart
  obtain ⟨whole, wholeEq⟩ := script.exists_behind (.last sentence) apart
  refine ⟨whole, ?_⟩
  rw [wholeEq, terminated, List.map_append, List.map_append, List.append_assoc]
  apply (List.prefix_append_right_inj _).mpr
  exact (starts.map some).trans (List.prefix_append _ _)

theorem not_of_stuckBehind {pending rest : Pending} {consumed : List Token}
    (stuck : pending.StuckBehind (fun _ => .start) consumed rest) :
    ¬ Viable ((script.yield ++ consumed).map some ++ [rest.tokens.head?]) := by
  intro viable
  have passed := viable.isSome_after?
  have nextEq : terminatedKind rest.tokens.head? = rest.nextKind := by
    unfold Pending.nextKind Pending.next?
    cases rest.tokens <;> rfl
  rw [List.map_append, map_terminatedKind, List.map_append, List.append_assoc,
    List.map_singleton, nextEq] at passed
  rw [Point.after?_append_of_eq (script.after?_yield_apart apart), stuck.stuck []] at passed
  cases passed

end Script

/-- The length of a viable front is the least index of a token that leads out of the grammar. -/
theorem isLeast_length {before rest : List Token} (viable : Viable (before.map some))
    (stuck : ¬ Viable (before.map some ++ [rest.head?])) :
    IsLeast {index | ¬ Viable ((terminated (before ++ rest)).take (index + 1))}
      before.length := by
  obtain ⟨others, restEq⟩ := exists_terminated_eq rest
  have tokensEq : terminated (before ++ rest) = before.map some ++ rest.head? :: others := by
    rw [terminated_append, restEq]
  refine ⟨?_, fun index unviable => ?_⟩
  · have takenEq : (terminated (before ++ rest)).take (before.length + 1) =
        before.map some ++ [rest.head?] := by
      rw [tokensEq, List.append_cons]
      exact List.take_left' (by simp)
    change ¬ Viable _
    rw [takenEq]
    exact stuck
  · apply Nat.le_of_not_lt
    intro shorter
    apply unviable
    apply viable.of_prefix
    rw [tokensEq, List.take_append_of_le_length (by simpa using Nat.succ_le_of_lt shorter)]
    exact List.take_prefix _ _

end Viable

namespace TokenStream

/--
If a text is refused for what a token is, it is at the first token that no text of
the grammar has there, behind the same tokens.  Whatever it is refused for, the
statements before the fault are those of the tokens before the statement that has
the fault.
-/
theorem fault_of_statements {stream : TokenStream} {failure : ParseFailure}
    (refused : stream.statements = .error failure) :
    (failure.fault.cause ≠ .nestedTooDeeply → failure.fault.cause ≠ .tooManyTerms →
      (∀ function, failure.fault.cause ≠ .assignedFunction function) →
      ∃ index ≤ stream.tokens.length, failure.fault.position = stream.positionAt index ∧
        Viable ((terminated stream.tokens).take index) ∧
        IsLeast {index | ¬ Viable ((terminated stream.tokens).take (index + 1))} index) ∧
    ∃ before first others, stream.tokens = before ++ first :: others ∧
      (∀ last ∈ before.getLast?, last.kind = .separator) ∧ first.kind ≠ .separator ∧
      statements ⟨first :: others, stream.stop⟩ = .error ⟨failure.fault, []⟩ ∧
      ∀ stop, statements ⟨before, stop⟩ = .ok failure.completed := by
  obtain ⟨tokens, stop⟩ := stream
  obtain ⟨script, failing, rfl, behind⟩ := exists_refusedBehind refused
  obtain ⟨first, others, rfl, noSeparator⟩ := behind.starts
  refine ⟨?_, script.yield, first, others, rfl, behind.apart, noSeparator, ?_, fun _ => ?_⟩
  · intro shallow few noFunction
    have noLimit : failure.fault.cause.isLimit = false := by
      cases causeEq : failure.fault.cause with
      | nestedTooDeeply => exact absurd causeEq shallow
      | tooManyTerms => exact absurd causeEq few
      | _ => rfl
    obtain ⟨consumed, rest, stuck, isStart, positionEq⟩ :=
      Statement.read_stuck noSeparator noLimit noFunction behind.failed
    have tokensEq : script.yield ++ first :: others =
        (script.yield ++ consumed) ++ rest.tokens := by
      rw [List.append_assoc]
      exact congrArg _ stuck.tokens_eq
    have viable := Viable.of_isStart behind.apart isStart
    have unviable := Viable.not_of_stuckBehind behind.apart stuck
    refine ⟨(script.yield ++ consumed).length, ?_, ?_, ?_, ?_⟩
    · rw [tokensEq]
      simp only [List.length_append]
      exact Nat.le_add_right _ _
    · have stopEq : rest.stop = stop := stuck.stop_eq
      rw [positionEq, tokensEq, ← stopEq]
      exact (positionAt_length _ rest).symm
    · rw [tokensEq, take_terminated]
      exact viable
    · rw [tokensEq]
      exact viable.isLeast_length unviable
  · rw [statements_cons noSeparator, behind.failed]
  · rw [← behind.trees_eq]
    exact statements_yield behind.fits

/-- In the second line a name comes where the call has to go on or to be closed. -/
theorem fault_of_statements_call :
    ∃ stream failure, ofText "a = x\nf(y z" = .ok stream ∧
      stream.statements = .error failure ∧ failure.fault.position = ⟨2, 5⟩ ∧
      failure.completed = [.assign "a" (.reference "x" ⟨1, 5⟩) ⟨1, 1⟩] ∧
      ∃ index, stream.positionAt index = ⟨2, 5⟩ ∧
        IsLeast {index | ¬ Viable ((terminated stream.tokens).take (index + 1))} index := by
  let stream : TokenStream := ⟨[⟨.name "a", ⟨1, 1⟩⟩, ⟨.equals, ⟨1, 3⟩⟩, ⟨.name "x", ⟨1, 5⟩⟩,
    ⟨.separator, ⟨1, 6⟩⟩, ⟨.name "f", ⟨2, 1⟩⟩, ⟨.openParenthesis, ⟨2, 2⟩⟩, ⟨.name "y", ⟨2, 3⟩⟩,
    ⟨.name "z", ⟨2, 5⟩⟩], ⟨2, 6⟩⟩
  let failure : ParseFailure :=
    ⟨⟨.unexpectedToken (.token .closeParenthesis) (some (.name "z")), ⟨2, 5⟩⟩,
    [.assign "a" (.reference "x" ⟨1, 5⟩) ⟨1, 1⟩]⟩
  have refused : stream.statements = .error failure := (statements_eq stream).trans rfl
  obtain ⟨index, _, positionEq, _, least⟩ := (fault_of_statements refused).1
    (fun same => nomatch same) (fun same => nomatch same) (fun _ same => nomatch same)
  exact ⟨stream, failure, by decide +kernel, refused, rfl, rfl, index, positionEq.symm, least⟩

end TokenStream

end SignalPatch
