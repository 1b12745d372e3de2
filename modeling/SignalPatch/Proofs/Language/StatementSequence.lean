import SignalPatch.Language.Compile
import SignalPatch.Proofs.Language.ReaderCompleteness

/-!
# One statement after the other

Statements are read independently of each other: what is read behind some of them
is what would be read there if nothing stood before.  If a text is refused, it is
for one statement, and those before it are what would be read without it.
-/

namespace SignalPatch

/-- An outcome of reading statements behind others that are completed. -/
def continued (completed : List Statement) :
    Except ParseFailure (List Statement) → Except ParseFailure (List Statement)
  | .ok statements => .ok (completed ++ statements)
  | .error failure => .error ⟨failure.fault, completed ++ failure.completed⟩

theorem continued_nil (outcome : Except ParseFailure (List Statement)) :
    continued [] outcome = outcome := by
  cases outcome <;> rfl

theorem continued_continued (first second : List Statement)
    (outcome : Except ParseFailure (List Statement)) :
    continued first (continued second outcome) = continued (first ++ second) outcome := by
  cases outcome <;> simp [continued]

namespace Statement

theorem length_rest_lt {tokens : List Token} {stop : Position} {statement : Statement}
    {rest : Pending} (success : read ⟨tokens, stop, 0⟩ = .ok (statement, rest)) :
    rest.tokens.length < tokens.length := by
  obtain ⟨sentence, _, _, tokensEq, _⟩ := read_sound success
  obtain ⟨token, others, yieldEq, _⟩ := sentence.exists_yield
  change tokens = _ at tokensEq
  rw [tokensEq, yieldEq]
  simp only [List.length_append, List.length_cons]
  omega

/-- Neither further steps nor the statements before change what is read behind them. -/
theorem readAll_eq_continued (stop : Position) (tokens steps : List Token)
    (before : Array Statement) (enough : tokens.length ≤ steps.length) :
    readAll stop steps tokens before =
      continued before.toList (TokenStream.statements ⟨tokens, stop⟩) := by
  induction sizeEq : tokens.length using Nat.strongRecOn
    generalizing tokens steps before with
  | ind size ih =>
      cases tokens with
      | nil => cases steps <;> simp [readAll, TokenStream.statements_eq, continued]
      | cons token tail =>
          cases steps with
          | nil => cases enough
          | cons step steps =>
              have suffix := List.dropWhile_suffix
                (fun token : Token => token.kind == .separator) (l := token :: tail)
              rw [TokenStream.statements_eq, readAll, readAll]
              cases dropped : (token :: tail).dropWhile
                  (fun token => token.kind == .separator) with
              | nil => simp [continued]
              | cons first others =>
                  simp only
                  cases success : read ⟨first :: others, stop, 0⟩ with
                  | error fault => simp [continued]
                  | ok result =>
                      have shorter := length_rest_lt success
                      have bound := suffix.length_le
                      rw [dropped] at bound
                      simp only [List.length_cons] at enough bound shorter sizeEq
                      simp only
                      rw [ih result.2.tokens.length (by omega) result.2.tokens steps _ (by omega)
                          rfl, ih result.2.tokens.length (by omega) result.2.tokens tail _
                          (by omega) rfl, continued_continued, Array.toList_push,
                        Array.toList_push]
                      rfl

end Statement

namespace TokenStream

variable {stop : Position}

theorem statements_separator (position : Position) (tokens : List Token) :
    statements ⟨⟨.separator, position⟩ :: tokens, stop⟩ = statements ⟨tokens, stop⟩ := by
  have skipped := Statement.readAll_separator stop
    ((⟨.separator, position⟩ : Token) :: tokens) position tokens #[] (List.cons_ne_nil _ _)
  rw [statements_eq, skipped, Statement.readAll_eq_continued _ _ _ _ (Nat.le_succ _)]
  exact continued_nil _

theorem statements_sentence {sentence : Sentence} (fits : sentence.Fits) {rest : List Token}
    (ended : Sentence.Ends rest) :
    statements ⟨sentence.yield ++ rest, stop⟩ =
      continued [sentence.tree] (statements ⟨rest, stop⟩) := by
  obtain ⟨token, tail, yieldEq, _⟩ := sentence.exists_yield
  have first := Statement.readAll_sentence fits ended stop token (tail ++ rest) #[]
  rw [Statement.readAll_eq_continued _ rest _ _ (by simp)] at first
  rw [statements_eq, show (⟨sentence.yield ++ rest, stop⟩ : TokenStream).tokens =
    token :: (tail ++ rest) by rw [yieldEq]; rfl]
  rw [yieldEq] at first
  exact first

/-- What stands behind a text that is read, and a separator, is read as if it stood alone. -/
theorem statements_behind {script : Script} (fits : ∀ sentence ∈ script.sentences, sentence.Fits)
    (position : Position) (rest : List Token) :
    statements ⟨script.yield ++ ⟨.separator, position⟩ :: rest, stop⟩ =
      continued script.trees (statements ⟨rest, stop⟩) := by
  induction script with
  | finish => rw [Script.yield, List.nil_append, statements_separator]; exact (continued_nil _).symm
  | separator first others ih =>
      rw [Script.yield, List.cons_append, statements_separator]
      exact ih fits
  | last body =>
      rw [Script.yield, statements_sentence (fits body (List.mem_singleton_self _))
        (Sentence.ends_separator _ _), statements_separator]
      rfl
  | sentence body first others ih =>
      have othersEq := ih (fun sentence member => fits sentence (List.mem_cons_of_mem _ member))
      rw [Script.yield, List.append_assoc, List.cons_append,
        statements_sentence (fits body (List.mem_cons_self ..)) (Sentence.ends_separator _ _),
        statements_separator, othersEq, continued_continued]
      rfl

theorem exists_script {tokens : List Token} {read : List Statement}
    (success : statements ⟨tokens, stop⟩ = .ok read) :
    ∃ script : Script, script.yield = tokens ∧ script.trees = read ∧
      ∀ sentence ∈ script.sentences, sentence.Fits := by
  obtain ⟨script, yieldEq, treesEq, fits⟩ :=
    Statement.readAll_sound stop tokens _ _ _ (Nat.le_refl _) ((statements_eq _).symm.trans success)
  exact ⟨script, yieldEq, treesEq, fits⟩

theorem statements_yield {script : Script} (fits : ∀ sentence ∈ script.sentences, sentence.Fits) :
    statements ⟨script.yield, stop⟩ = .ok script.trees :=
  (statements_eq _).trans (Statement.readAll_yield stop script fits _ (Nat.le_refl _) #[])

/-- At the start of a statement, it is read and then what is behind it, or it is refused. -/
theorem statements_cons {token : Token} (noSeparator : token.kind ≠ .separator)
    (others : List Token) :
    statements ⟨token :: others, stop⟩ =
      match Statement.read ⟨token :: others, stop, 0⟩ with
      | .error fault => .error ⟨fault, []⟩
      | .ok (statement, rest) => continued [statement] (statements ⟨rest.tokens, stop⟩) := by
  have keeps : (token.kind == TokenKind.separator) = false := by simpa using noSeparator
  rw [statements_eq, Statement.readAll]
  simp only [List.dropWhile_cons, keeps, Bool.false_eq_true, ↓reduceIte]
  cases success : Statement.read ⟨token :: others, stop, 0⟩ with
  | error fault => rfl
  | ok result =>
      have shorter := Statement.length_rest_lt success
      exact Statement.readAll_eq_continued _ _ _ _ (Nat.le_of_lt_succ shorter)

end TokenStream

/--
The statement at the start of `failing` is refused, and what stands before it is
read.  If anything does, it ends with a separator.
-/
structure RefusedBehind (script : Script) (failing : List Token) (stop : Position)
    (failure : ParseFailure) : Prop where
  trees_eq : script.trees = failure.completed
  fits : ∀ sentence ∈ script.sentences, sentence.Fits
  apart : ∀ last ∈ script.yield.getLast?, last.kind = .separator
  starts : ∃ token others, failing = token :: others ∧ token.kind ≠ .separator
  failed : Statement.read ⟨failing, stop, 0⟩ = .error failure.fault

namespace RefusedBehind

variable {script : Script} {failing : List Token} {stop : Position} {failure : ParseFailure}

theorem separator (refused : RefusedBehind script failing stop failure) (position : Position) :
    RefusedBehind (.separator position script) failing stop failure where
  trees_eq := refused.trees_eq
  fits := refused.fits
  apart := by
    intro last member
    rw [Script.yield, List.getLast?_cons] at member
    cases lastEq : script.yield.getLast? with
    | none =>
        rw [lastEq] at member
        cases member
        rfl
    | some other =>
        rw [lastEq] at member
        cases member
        exact refused.apart _ lastEq
  starts := refused.starts
  failed := refused.failed

/-- Behind a statement that is read stands a separator, as it ends there. -/
theorem sentence (refused : RefusedBehind script failing stop failure) {body : Sentence}
    (bodyFits : body.Fits) (bodyEnds : Sentence.Ends (script.yield ++ failing)) :
    ∃ whole : Script, whole.yield = body.yield ++ script.yield ∧
      RefusedBehind whole failing stop ⟨failure.fault, body.tree :: failure.completed⟩ := by
  have scriptEnds : Sentence.Ends script.yield := by
    intro next head
    refine bodyEnds next ?_
    rw [List.head?_append, head]
    rfl
  obtain ⟨whole, wholeEq, sentencesEq⟩ := Script.exists_of_sentence body script scriptEnds
  refine ⟨whole, wholeEq, ?_, ?_, ?_, refused.starts, refused.failed⟩
  · rw [Script.trees, sentencesEq, List.map_cons, ← Script.trees, refused.trees_eq]
  · rw [sentencesEq]
    exact List.forall_mem_cons.mpr ⟨bodyFits, refused.fits⟩
  · intro last member
    rw [wholeEq, List.getLast?_append] at member
    cases lastEq : script.yield.getLast? with
    | none =>
        obtain ⟨token, others, rfl, noSeparator⟩ := refused.starts
        rw [List.getLast?_eq_none_iff.mp lastEq] at bodyEnds
        exact absurd (bodyEnds token rfl) noSeparator
    | some other =>
        rw [lastEq] at member
        cases member
        exact refused.apart _ lastEq

end RefusedBehind

/-- A text is refused at one statement, and the statements before it are completed. -/
theorem TokenStream.exists_refusedBehind {stop : Position} {tokens : List Token}
    {failure : ParseFailure} (refused : statements ⟨tokens, stop⟩ = .error failure) :
    ∃ script failing, tokens = script.yield ++ failing ∧
      RefusedBehind script failing stop failure := by
  induction sizeEq : tokens.length using Nat.strongRecOn generalizing tokens failure with
  | ind size ih =>
      cases tokens with
      | nil => cases refused
      | cons token others =>
          by_cases separates : token.kind = .separator
          · obtain ⟨kind, position⟩ := token
            cases separates
            rw [statements_separator] at refused
            obtain ⟨script, failing, othersEq, behind⟩ :=
              ih others.length (by simp [← sizeEq]) refused rfl
            exact ⟨.separator position script, failing, congrArg _ othersEq,
              behind.separator position⟩
          · rw [statements_cons separates] at refused
            split at refused
            · rename_i fault failed
              cases refused
              exact ⟨.finish, token :: others, rfl, rfl, nofun, nofun,
                ⟨token, others, rfl, separates⟩, failed⟩
            · rename_i statement rest success
              obtain ⟨body, rfl, bodyFits, tokensEq, bodyEnds⟩ := Statement.read_sound success
              have shorter := Statement.length_rest_lt success
              cases later : statements ⟨rest.tokens, stop⟩ with
              | ok read =>
                  rw [later] at refused
                  cases refused
              | error laterFailure =>
                  rw [later] at refused
                  cases refused
                  obtain ⟨script, failing, restEq, behind⟩ :=
                    ih rest.tokens.length (sizeEq ▸ shorter) later rfl
                  obtain ⟨whole, wholeEq, refusedBehind⟩ :=
                    behind.sentence bodyFits (restEq ▸ bodyEnds)
                  refine ⟨whole, failing, ?_, refusedBehind⟩
                  rw [wholeEq, List.append_assoc, ← restEq]
                  exact tokensEq

theorem parse_eq_ok {text : String} {completed : List Statement}
    (parsed : parse text = .ok completed) :
    ∃ stream, TokenStream.ofText text = .ok stream ∧ stream.statements = .ok completed := by
  unfold parse at parsed
  split at parsed
  · cases parsed
  · rename_i stream read
    split at parsed
    · cases parsed
    · rename_i statements success
      cases parsed
      exact ⟨stream, read, success⟩

end SignalPatch
