import SignalPatch.Proofs.Language.ReaderSoundness

/-!
# Where readers are refused

A reader that asks for another token is refused at a point where its phrase could
still go on, but not with the token that is next there.  This holds wherever the
phrase stands, as it does not depend on the brackets that are open around it.
-/

namespace SignalPatch

namespace Pending

/-- The kind of the next token, where the end is like a separator. -/
def nextKind (pending : Pending) : TokenKind :=
  pending.next?.getD .separator

/-- Behind these tokens the next one cannot be next, whatever brackets are open. -/
structure StuckBehind (pending : Pending) (entry : List Bracket → Point)
    (consumed : List Token) (rest : Pending) : Prop where
  tokens_eq : pending.tokens = consumed ++ rest.tokens
  stop_eq : rest.stop = pending.stop
  stuck : ∀ brackets,
    (entry brackets).after? (consumed.map Token.kind ++ [rest.nextKind]) = none

/-- A fault is at a token that cannot be next behind the start of something wanted. -/
def FaultAt (pending : Pending) (entry : List Bracket → Point) (Starts : List Token → Prop)
    (position : Position) : Prop :=
  ∃ consumed rest, pending.StuckBehind entry consumed rest ∧ Starts consumed ∧
    position = rest.position

variable {pending middle : Pending} {entry inner : List Bracket → Point}
  {Starts InnerStarts : List Token → Prop} {position : Position}

/-- A fault at the next token. -/
theorem FaultAt.here (starts : Starts [])
    (refused : ∀ brackets, (entry brackets).step pending.nextKind = none) :
    pending.FaultAt entry Starts pending.position := by
  refine ⟨[], pending, ⟨rfl, rfl, fun brackets => ?_⟩, starts, rfl⟩
  simp [Point.after?, refused]

/-- A fault in what is inside of something, behind the tokens that are before it. -/
theorem FaultAt.behind (fault : middle.FaultAt inner InnerStarts position)
    {first : List Token} {terms : Nat} (consumed : pending.Consumes first terms middle)
    (passed : ∀ brackets, ∃ inside,
      (entry brackets).after? (first.map Token.kind) = some (inner inside))
    (starts : ∀ others, InnerStarts others → Starts (first ++ others)) :
    pending.FaultAt entry Starts position := by
  obtain ⟨others, rest, ⟨tokensEq, stopEq, stuck⟩, innerStarts, positionEq⟩ := fault
  refine ⟨first ++ others, rest, ⟨?_, stopEq.trans consumed.stop_eq, fun brackets => ?_⟩,
    starts others innerStarts, positionEq⟩
  · rw [consumed.tokens_eq, tokensEq, List.append_assoc]
  · obtain ⟨inside, passedEq⟩ := passed brackets
    rw [List.map_append, List.append_assoc, Point.after?_append_of_eq passedEq]
    exact stuck inside

theorem FaultAt.imp (fault : pending.FaultAt entry InnerStarts position)
    (starts : ∀ others, InnerStarts others → Starts others) :
    pending.FaultAt entry Starts position := by
  obtain ⟨consumed, rest, stuck, innerStarts, positionEq⟩ := fault
  exact ⟨consumed, rest, stuck, starts _ innerStarts, positionEq⟩

end Pending

/-- Whether a text is refused for its size only. -/
def Cause.isLimit : Cause → Bool
  | .nestedTooDeeply | .tooManyTerms => true
  | _ => false

def Level.IsStart (level : Level) (tokens : List Token) : Prop :=
  ∃ phrase : Phrase level, tokens <+: phrase.yield

def Arguments.IsStart (tokens : List Token) : Prop :=
  ∃ (first : Phrase .expression) (others : Arguments), tokens <+: first.yield ++ others.yield

/-- A reader that is refused only where no phrase of a level goes on. -/
def Level.Stuck (level : Level) (reader : Reader Expression) : Prop :=
  ∀ pending fault, fault.cause.isLimit = false → reader pending = .error fault →
    pending.FaultAt level.entry level.IsStart fault.position

def Arguments.Stuck (reader : Reader (List Expression)) : Prop :=
  ∀ pending fault, fault.cause.isLimit = false → reader pending = .error fault →
    pending.FaultAt (fun brackets => ⟨.operand, .call :: brackets⟩) IsStart fault.position

structure Nested.Stuck (nested : Nested) : Prop where
  primary : Level.primary.Stuck nested.primary
  factor : Level.factor.Stuck nested.factor
  expression : Level.expression.Stuck nested.expression
  arguments : Arguments.Stuck nested.arguments

theorem Level.isStart_nil (level : Level) : level.IsStart [] := by
  have primary : Phrase .primary := .name "" .start
  have factor : Phrase .factor := .plain (.unsigned primary)
  cases level with
  | primary => exact ⟨primary, List.nil_prefix⟩
  | signed => exact ⟨.unsigned primary, List.nil_prefix⟩
  | factor => exact ⟨factor, List.nil_prefix⟩
  | term => exact ⟨.term factor .finish, List.nil_prefix⟩
  | expression => exact ⟨.expression (.term factor .finish) .finish, List.nil_prefix⟩

theorem exists_of_bind_eq_error {Failure First Second : Type} {first : Except Failure First}
    {next : First → Except Failure Second} {failure : Failure}
    (bound : (first >>= next) = .error failure) :
    first = .error failure ∨ ∃ middle, first = .ok middle ∧ next middle = .error failure := by
  cases first with
  | error other =>
      cases bound
      exact .inl rfl
  | ok middle => exact .inr ⟨middle, rfl, bound⟩

namespace Pending

variable {pending : Pending} {fault : Fault} {position : Position}

/-- Only a limit keeps a term from being counted. -/
theorem countTerm_ne_error (noLimit : fault.cause.isLimit = false) :
    pending.countTerm ≠ .error fault := by
  intro refused
  unfold countTerm at refused
  split at refused
  · cases refused
  · cases refused
    cases noLimit

theorem refuse_ne_error {Result : Type} (noLimit : fault.cause.isLimit = false) :
    (pending.refuse .nestedTooDeeply : Except Fault Result) ≠ .error fault := by
  intro refused
  cases refused
  cases noLimit

theorem nextKind_ne {kind : TokenKind} (notNext : pending.next? ≠ some kind)
    (noSeparator : kind ≠ .separator) : pending.nextKind ≠ kind := by
  unfold nextKind
  cases next : pending.next? with
  | none => exact noSeparator.symm
  | some other => exact fun same => notNext (next.trans (congrArg some same))

/-- Behind an expression that stops, the token that is next has to close something. -/
theorem step_behind {named : Bool} (stops : Level.expression.StopsAt named pending.next?)
    (brackets : List Bracket) :
    (⟨.behind named, brackets⟩ : Point).step pending.nextKind =
      Point.closingStep brackets pending.nextKind := by
  change Point.behindStep named brackets pending.nextKind = _
  unfold Point.behindStep nextKind
  cases next : pending.next? with
  | none => rfl
  | some kind =>
      have stopped := stops kind next
      rw [Option.getD_some]
      split
      · rename_i parenthesis
        subst parenthesis
        rw [(stopped rfl).2]
        cases brackets with
        | nil => rfl
        | cons bracket outer => cases bracket <;> rfl
      · rename_i noParenthesis
        split
        · rename_i continued
          exact absurd (stopped continued).1 noParenthesis
        · rfl

theorem faultAt_close {bracket : Bracket} {named : Bool}
    (stops : Level.expression.StopsAt named pending.next?)
    (noComma : bracket = .call → pending.next? ≠ some .comma)
    (refused : pending.close = .error fault) :
    pending.FaultAt (fun brackets => ⟨.behind named, bracket :: brackets⟩) (· = [])
      fault.position := by
  unfold close at refused
  split at refused
  · cases refused
  · rename_i noClose
    cases refused
    refine FaultAt.here rfl (fun brackets => ?_)
    rw [step_behind stops]
    have notClosing := nextKind_ne noClose nofun
    apply Point.closingStep_eq_none notClosing
    intro isCall
    exact nextKind_ne (noComma isCall) nofun

/-- What is passed up to a fault starts with the token that is next. -/
theorem StuckBehind.exists_kinds {entry : List Bracket → Point} {consumed : List Token}
    {rest : Pending} (stuck : pending.StuckBehind entry consumed rest) :
    ∃ others, consumed.map Token.kind ++ [rest.nextKind] = pending.nextKind :: others ∧
      others <+: pending.tokens.tail.map Token.kind ++ [.separator] := by
  have tokensEq := stuck.tokens_eq
  cases consumed with
  | nil =>
      refine ⟨[], ?_, List.nil_prefix⟩
      simp [nextKind, next?, tokensEq]
  | cons token others =>
      refine ⟨others.map Token.kind ++ [rest.nextKind], ?_, ?_⟩
      · simp [nextKind, next?, tokensEq]
      · rw [tokensEq, List.cons_append, List.tail_cons, List.map_append, List.append_assoc]
        apply (List.prefix_append_right_inj _).mpr
        unfold nextKind next?
        cases rest.tokens with
        | nil => exact List.prefix_refl _
        | cons next later => exact (List.prefix_cons_inj _).mpr List.nil_prefix

/-- Where no minus is next, a primary is refused where a signed one is. -/
theorem FaultAt.signed (noMinus : pending.next? ≠ some .minus)
    (fault : pending.FaultAt Level.primary.entry Level.primary.IsStart position) :
    pending.FaultAt Level.signed.entry Level.signed.IsStart position := by
  obtain ⟨consumed, rest, stuck, ⟨phrase, starts⟩, positionEq⟩ := fault
  obtain ⟨others, kindsEq, _⟩ := stuck.exists_kinds
  refine ⟨consumed, rest, ⟨stuck.tokens_eq, stuck.stop_eq, fun brackets => ?_⟩,
    ⟨.unsigned phrase, starts⟩, positionEq⟩
  have stuckHere := stuck.stuck brackets
  have isNoMinus := nextKind_ne noMinus nofun
  rw [kindsEq] at stuckHere ⊢
  rw [← stuckHere]
  cases kindEq : pending.nextKind with
  | minus => exact absurd kindEq isNoMinus
  | _ => rfl

end Pending

namespace Grammar

variable {levels : Nat} {nested : Nested}

theorem call_stuck (sound : nested.Sound levels) (stuck : nested.Stuck) (head : CallHead)
    {pending counted : Pending} {fault : Fault} (noLimit : fault.cause.isLimit = false)
    (next : pending.next? = some head.kind) (count : pending.countTerm = .ok counted)
    (parenthesis : counted.advance.next? = some .openParenthesis)
    (refused : call nested head.called pending.position counted.advance = .error fault) :
    pending.FaultAt Level.primary.entry Level.primary.IsStart fault.position := by
  have opened := (Pending.consumes_count next count).append (Pending.consumes_advance parenthesis)
  rcases exists_of_bind_eq_error refused with argumentsRefused | ⟨⟨_, behind⟩, read, closeRefused⟩
  · apply (stuck.arguments _ _ noLimit argumentsRefused).behind opened
    · intro brackets
      refine ⟨brackets, ?_⟩
      exact Point.after?_callHead head brackets []
    · rintro others ⟨first, more, starts⟩
      refine ⟨.call head pending.position counted.advance.position first more .start, ?_⟩
      simp only [Phrase.yield, List.cons_append, List.nil_append, List.cons_prefix_cons, true_and]
      exact starts.trans (List.prefix_append _ _)
  · obtain ⟨first, more, _, _, _, consumed, stops, noComma⟩ := sound.arguments _ _ _ read
    rcases exists_of_bind_eq_error closeRefused with closeRefused | ⟨_, _, returned⟩
    · have fault : behind.FaultAt (fun brackets =>
          ⟨.behind (more.endsInName first.endsInName), .call :: brackets⟩) (· = [])
          fault.position :=
        Pending.faultAt_close stops (fun _ => noComma) closeRefused
      apply fault.behind (opened.append consumed)
      · intro brackets
        refine ⟨brackets, ?_⟩
        simp only [List.map_append, List.map_cons, List.cons_append, List.nil_append]
        rw [Level.primary_entry, Point.after?_callHead,
          Point.after?_append_of_eq (first.after?_yield (.call :: brackets))]
        exact more.after?_yield _ _
      · rintro others rfl
        refine ⟨.call head pending.position counted.advance.position first more .start, ?_⟩
        simp only [Phrase.yield, List.cons_append, List.nil_append, List.append_nil,
          List.cons_prefix_cons, true_and]
        exact List.prefix_append _ _
    · cases returned

theorem primary_stuck (sound : nested.Sound levels) (stuck : nested.Stuck) :
    Level.primary.Stuck (primary nested) := by
  intro pending fault noLimit refused
  simp only [primary] at refused
  split at refused
  · rcases exists_of_bind_eq_error refused with countRefused | ⟨counted, count, returned⟩
    · exact absurd countRefused (Pending.countTerm_ne_error noLimit)
    · cases returned
  · rename_i text next
    rcases exists_of_bind_eq_error refused with countRefused | ⟨counted, count, refused⟩
    · exact absurd countRefused (Pending.countTerm_ne_error noLimit)
    · split at refused
      · exact call_stuck sound stuck (.name text) noLimit next count (by assumption) refused
      · cases refused
  · rename_i function next
    rcases exists_of_bind_eq_error refused with countRefused | ⟨counted, count, refused⟩
    · exact absurd countRefused (Pending.countTerm_ne_error noLimit)
    · split at refused
      · exact call_stuck sound stuck (.builtin function) noLimit next count (by assumption) refused
      · rename_i noParenthesis
        cases refused
        have fault : counted.advance.FaultAt (fun brackets => ⟨.function, brackets⟩) (· = [])
            counted.advance.position := by
          refine .here rfl (fun brackets => ?_)
          apply Point.step_function_eq_none
          exact Pending.nextKind_ne noParenthesis nofun
        apply fault.behind (Pending.consumes_count next count)
        · exact fun brackets => ⟨brackets, rfl⟩
        · rintro others rfl
          refine ⟨.call (.builtin function) pending.position .start
            (Sentence.ofName "" .start) .finish .start, ?_⟩
          simp [Phrase.yield, CallHead.kind]
  · rename_i next
    rcases exists_of_bind_eq_error refused with innerRefused | ⟨⟨_, behind⟩, read, closeRefused⟩
    · apply (stuck.expression _ _ noLimit innerRefused).behind (Pending.consumes_advance next)
      · exact fun brackets => ⟨.parentheses :: brackets, rfl⟩
      · rintro others ⟨inner, starts⟩
        refine ⟨.parentheses pending.position inner .start, ?_⟩
        simp only [Phrase.yield, List.cons_append, List.nil_append, List.cons_prefix_cons, true_and]
        exact starts.trans (List.prefix_append _ _)
    · obtain ⟨inner, _, _, consumed, stops⟩ := sound.expression _ _ _ read
      rcases exists_of_bind_eq_error closeRefused with closeRefused | ⟨_, _, returned⟩
      · have fault : behind.FaultAt (fun brackets =>
            ⟨.behind inner.endsInName, .parentheses :: brackets⟩) (· = [])
          fault.position :=
          Pending.faultAt_close stops nofun closeRefused
        apply fault.behind ((Pending.consumes_advance next).append consumed)
        · exact fun brackets => ⟨brackets, inner.after?_yield (.parentheses :: brackets)⟩
        · rintro others rfl
          refine ⟨.parentheses pending.position inner .start, ?_⟩
          simp only [Phrase.yield, List.cons_append, List.nil_append, List.append_nil,
            List.cons_prefix_cons, true_and]
          exact List.prefix_append _ _
      · cases returned
  · rename_i noNumber noName noFunction noParenthesis
    cases refused
    refine .here (Level.isStart_nil _) (fun brackets => ?_)
    unfold Pending.nextKind
    cases next : pending.next? with
    | none => rfl
    | some kind =>
        cases kind with
        | number value => exact absurd next (noNumber value)
        | name text => exact absurd next (noName text)
        | builtin function => exact absurd next (noFunction function)
        | openParenthesis => exact absurd next noParenthesis
        | _ => rfl

theorem signed_stuck (sound : nested.Sound levels) (stuck : nested.Stuck) :
    Level.signed.Stuck (signed nested) := by
  intro pending fault noLimit refused
  simp only [signed] at refused
  split at refused
  · rename_i next
    rcases exists_of_bind_eq_error refused with countRefused | ⟨counted, count, refused⟩
    · exact absurd countRefused (Pending.countTerm_ne_error noLimit)
    · rcases exists_of_bind_eq_error refused with operandRefused | ⟨_, _, returned⟩
      · apply (stuck.primary _ _ noLimit operandRefused).behind (Pending.consumes_count next count)
        · exact fun brackets => ⟨brackets, rfl⟩
        · rintro others ⟨operand, starts⟩
          exact ⟨.negated pending.position operand, (List.prefix_cons_inj _).mpr starts⟩
      · cases returned
  · rename_i noMinus
    exact (primary_stuck sound stuck _ _ noLimit refused).signed noMinus

theorem factor_stuck (sound : nested.Sound levels) (stuck : nested.Stuck) :
    Level.factor.Stuck (factor nested) := by
  intro pending fault noLimit refused
  rcases exists_of_bind_eq_error refused with baseRefused | ⟨⟨_, behind⟩, baseRead, refused⟩
  · apply (signed_stuck sound stuck _ _ noLimit baseRefused).imp
    rintro others ⟨base, starts⟩
    exact ⟨.plain base, starts⟩
  · obtain ⟨base, _, _, consumed, _⟩ := signed_sound sound _ _ _ baseRead
    dsimp only at refused
    split at refused
    · rename_i next
      rcases exists_of_bind_eq_error refused with countRefused | ⟨counted, count, refused⟩
      · exact absurd countRefused (Pending.countTerm_ne_error noLimit)
      · rcases exists_of_bind_eq_error refused with exponentRefused | ⟨_, _, returned⟩
        · apply (stuck.factor _ _ noLimit exponentRefused).behind
            (consumed.append (Pending.consumes_count next count))
          · intro brackets
            refine ⟨brackets, ?_⟩
            rw [List.map_append]
            exact Point.after?_append_of_eq (base.after?_yield brackets) _
          · rintro others ⟨exponent, starts⟩
            refine ⟨.power base behind.position exponent, ?_⟩
            rw [List.append_assoc]
            exact (List.prefix_append_right_inj _).mpr ((List.prefix_cons_inj _).mpr starts)
        · cases returned
    · cases refused

theorem chain_stuck {level : Level} {operand : Reader Expression}
    (sound : level.Sound (levels + 1) operand) (stuck : level.Stuck operand)
    (steps : List Token) :
    ∀ left pending named fault, fault.cause.isLimit = false →
      chain operand level.operator? steps left pending = .error fault →
      pending.FaultAt (fun brackets => ⟨.behind named, brackets⟩)
        (fun tokens => ∃ others : Chain level, tokens <+: others.yield) fault.position := by
  induction steps with
  | nil => exact fun _ _ _ _ _ refused => nomatch refused
  | cons step steps ih =>
      intro left pending named fault noLimit refused
      simp only [chain] at refused
      split at refused
      · cases refused
      · rename_i operator operatorFound
        obtain ⟨symbol, next, joins⟩ := Option.bind_eq_some_iff.mp operatorFound
        split at refused
        · rename_i countRefused
          cases refused
          exact absurd countRefused (Pending.countTerm_ne_error noLimit)
        · rename_i counted count
          have joined := Pending.consumes_count next count
          split at refused
          · rename_i operandRefused
            cases refused
            apply (stuck _ _ noLimit operandRefused).behind joined
            · intro brackets
              exact ⟨brackets, Point.after?_cons (Point.step_join joins named brackets) []⟩
            · rintro others ⟨phrase, starts⟩
              refine ⟨.join symbol operator joins pending.position phrase .finish, ?_⟩
              rw [Chain.yield, Chain.yield, List.append_nil]
              exact (List.prefix_cons_inj _).mpr starts
          · rename_i right behind operandRead
            obtain ⟨phrase, _, _, consumed, _⟩ := sound _ _ _ operandRead
            apply (ih _ _ phrase.endsInName _ noLimit refused).behind (joined.append consumed)
            · intro brackets
              refine ⟨brackets, ?_⟩
              rw [List.map_append, List.map_singleton, List.singleton_append,
                Point.after?_cons (Point.step_join joins named brackets)]
              exact phrase.after?_yield brackets
            · rintro others ⟨more, starts⟩
              refine ⟨.join symbol operator joins pending.position phrase more, ?_⟩
              simp only [Chain.yield, List.cons_append, List.nil_append, List.cons_prefix_cons,
                true_and]
              exact (List.prefix_append_right_inj _).mpr starts

theorem term_stuck (sound : nested.Sound levels) (stuck : nested.Stuck) :
    Level.term.Stuck (term nested) := by
  intro pending fault noLimit refused
  rcases exists_of_bind_eq_error refused with firstRefused | ⟨⟨_, behind⟩, firstRead, refused⟩
  · apply (factor_stuck sound stuck _ _ noLimit firstRefused).imp
    rintro others ⟨first, starts⟩
    exact ⟨.term first .finish, starts.trans (List.prefix_append _ _)⟩
  · obtain ⟨first, _, _, consumed, _⟩ := factor_sound sound _ _ _ firstRead
    apply (chain_stuck (factor_sound sound) (factor_stuck sound stuck) _ _ _ first.endsInName
      _ noLimit refused).behind consumed
    · exact fun brackets => ⟨brackets, first.after?_yield brackets⟩
    · rintro others ⟨more, starts⟩
      exact ⟨.term first more, (List.prefix_append_right_inj _).mpr starts⟩

theorem expression_stuck (sound : nested.Sound levels) (stuck : nested.Stuck) :
    Level.expression.Stuck (expression nested) := by
  intro pending fault noLimit refused
  rcases exists_of_bind_eq_error refused with firstRefused | ⟨⟨_, behind⟩, firstRead, refused⟩
  · apply (term_stuck sound stuck _ _ noLimit firstRefused).imp
    rintro others ⟨first, starts⟩
    exact ⟨.expression first .finish, starts.trans (List.prefix_append _ _)⟩
  · obtain ⟨first, _, _, consumed, _⟩ := term_sound sound _ _ _ firstRead
    apply (chain_stuck (term_sound sound) (term_stuck sound stuck) _ _ _ first.endsInName
      _ noLimit refused).behind consumed
    · exact fun brackets => ⟨brackets, first.after?_yield brackets⟩
    · rintro others ⟨more, starts⟩
      exact ⟨.expression first more, (List.prefix_append_right_inj _).mpr starts⟩

theorem moreArguments_stuck {argument : Reader Expression}
    (sound : Level.expression.Sound (levels + 1) argument)
    (stuck : Level.expression.Stuck argument) (steps : List Token) :
    ∀ before pending named fault, fault.cause.isLimit = false →
      moreArguments argument steps before pending = .error fault →
      pending.FaultAt (fun brackets => ⟨.behind named, .call :: brackets⟩)
        (fun tokens => ∃ others : Arguments, tokens <+: others.yield) fault.position := by
  induction steps with
  | nil => exact fun _ _ _ _ _ refused => nomatch refused
  | cons step steps ih =>
      intro before pending named fault noLimit refused
      simp only [moreArguments] at refused
      split at refused
      · rename_i next
        have separated := Pending.consumes_advance next
        split at refused
        · rename_i argumentRefused
          cases refused
          apply (stuck _ _ noLimit argumentRefused).behind separated
          · exact fun brackets => ⟨.call :: brackets, rfl⟩
          · rintro others ⟨phrase, starts⟩
            refine ⟨.next pending.position phrase .finish, ?_⟩
            rw [Arguments.yield, Arguments.yield, List.append_nil]
            exact (List.prefix_cons_inj _).mpr starts
        · rename_i tree behind argumentRead
          obtain ⟨phrase, _, _, consumed, _⟩ := sound _ _ _ argumentRead
          apply (ih _ _ phrase.endsInName _ noLimit refused).behind (separated.append consumed)
          · exact fun brackets => ⟨brackets, phrase.after?_yield (.call :: brackets)⟩
          · rintro others ⟨more, starts⟩
            refine ⟨.next pending.position phrase more, ?_⟩
            simp only [Arguments.yield, List.cons_append, List.nil_append, List.cons_prefix_cons,
              true_and]
            exact (List.prefix_append_right_inj _).mpr starts
      · cases refused

theorem arguments_stuck (sound : nested.Sound levels) (stuck : nested.Stuck) :
    Arguments.Stuck (arguments nested) := by
  intro pending fault noLimit refused
  rcases exists_of_bind_eq_error refused with firstRefused | ⟨⟨_, behind⟩, firstRead, refused⟩
  · have fault := expression_stuck sound stuck _ _ noLimit firstRefused
    apply fault.behind (.refl pending)
    · exact fun brackets => ⟨.call :: brackets, rfl⟩
    · rintro others ⟨first, starts⟩
      exact ⟨first, .finish, starts.trans (List.prefix_append _ _)⟩
  · obtain ⟨first, _, _, consumed, _⟩ := expression_sound sound _ _ _ firstRead
    apply (moreArguments_stuck (expression_sound sound) (expression_stuck sound stuck) _ _ _
      first.endsInName _ noLimit refused).behind consumed
    · exact fun brackets => ⟨brackets, first.after?_yield (.call :: brackets)⟩
    · rintro others ⟨more, starts⟩
      exact ⟨first, more, (List.prefix_append_right_inj _).mpr starts⟩

end Grammar

theorem Nested.stuck_ofLevels (levels : Nat) : (ofLevels levels).Stuck := by
  induction levels with
  | zero =>
      refine ⟨?_, ?_, ?_, ?_⟩
      · exact fun _ _ noLimit refused => absurd refused (Pending.refuse_ne_error noLimit)
      · exact fun _ _ noLimit refused => absurd refused (Pending.refuse_ne_error noLimit)
      · exact fun _ _ noLimit refused => absurd refused (Pending.refuse_ne_error noLimit)
      · exact fun _ _ noLimit refused => absurd refused (Pending.refuse_ne_error noLimit)
  | succ levels ih =>
      have sound := sound_ofLevels levels
      exact ⟨Grammar.primary_stuck sound ih, Grammar.factor_stuck sound ih,
        Grammar.expression_stuck sound ih, Grammar.arguments_stuck sound ih⟩

def Sentence.IsStart (tokens : List Token) : Prop :=
  ∃ sentence : Sentence, tokens <+: sentence.yield

/-- A fault in an expression that no bracket is open around. -/
abbrev Pending.FaultInValue (pending : Pending) (position : Position) : Prop :=
  pending.FaultAt (fun _ => Level.expression.entry []) Level.expression.IsStart position

abbrev Pending.FaultInStatement (pending : Pending) (position : Position) : Prop :=
  pending.FaultAt (fun _ => .start) Sentence.IsStart position

namespace Pending.FaultInValue

theorem assigned {others : List Token} {stop position : Position} {terms : Nat}
    (fault : FaultInValue ⟨others, stop, terms⟩ position) (target : String)
    (targetPosition equals : Position) :
    FaultInStatement ⟨⟨.name target, targetPosition⟩ :: ⟨.equals, equals⟩ :: others, stop, terms⟩
      position := by
  let pending : Pending :=
    ⟨⟨.name target, targetPosition⟩ :: ⟨.equals, equals⟩ :: others, stop, terms⟩
  have consumed : pending.Consumes [⟨.name target, targetPosition⟩, ⟨.equals, equals⟩] 0
      ⟨others, stop, terms⟩ :=
    ⟨rfl, rfl, rfl, id⟩
  refine fault.behind consumed (fun _ => ⟨[], rfl⟩) ?_
  rintro tokens ⟨value, starts⟩
  refine ⟨.assignment target targetPosition equals value, ?_⟩
  simpa [Sentence.yield] using starts

theorem bare {pending : Pending} {position : Position} (fault : pending.FaultInValue position)
    (noSeparator : pending.nextKind ≠ .separator)
    (noAssignment : ∀ target targetPosition equals others,
      pending.tokens ≠ ⟨.name target, targetPosition⟩ :: ⟨.equals, equals⟩ :: others) :
    pending.FaultInStatement position := by
  obtain ⟨consumed, rest, stuck, ⟨value, starts⟩, positionEq⟩ := fault
  obtain ⟨kinds, kindsEq, isFront⟩ := stuck.exists_kinds
  refine ⟨consumed, rest, ⟨stuck.tokens_eq, stuck.stop_eq, fun brackets => ?_⟩,
    ⟨.bare value, starts⟩, positionEq⟩
  have stuckHere := stuck.stuck []
  rw [kindsEq] at stuckHere ⊢
  apply Point.after?_start_eq_none noSeparator ?_ stuckHere
  intro target nameEq head
  -- what is passed consists of pending tokens, of which the second one would be `=`
  obtain ⟨tokens, stop, terms⟩ := pending
  cases tokens with
  | nil => cases nameEq
  | cons token tail =>
      obtain ⟨kind, position⟩ := token
      cases nameEq
      cases kinds with
      | nil => cases head
      | cons next later =>
          cases head
          cases tail with
          | nil => exact absurd (List.cons_prefix_cons.mp isFront).1 nofun
          | cons second others =>
              obtain ⟨secondKind, equals⟩ := second
              cases (List.cons_prefix_cons.mp isFront).1
              exact noAssignment target position equals others rfl

end Pending.FaultInValue

namespace Statement

variable {fault : Fault}

/-- The value of a statement is refused, or something is behind it that does not end it. -/
theorem value_stuck {pending : Pending} (noLimit : fault.cause.isLimit = false)
    (make : Expression → Statement)
    (refused : ((Grammar.expression .outermost pending >>= fun result =>
        pure (make result.1, result.2)) >>= fun result : Statement × Pending =>
          match result.2.next? with
          | none | some .separator => .ok result
          | _ => result.2.unexpected .endOfStatement) = .error fault) :
    pending.FaultInValue fault.position := by
  rcases exists_of_bind_eq_error refused with valueRefused | ⟨⟨_, rest⟩, returned, endRefused⟩
  · rcases exists_of_bind_eq_error valueRefused with valueRefused | ⟨_, _, returned⟩
    · have stuck := Grammar.expression_stuck (Nested.sound_ofLevels maxNesting)
        (Nested.stuck_ofLevels maxNesting)
      apply (stuck _ _ noLimit valueRefused).behind (.refl pending)
      · exact fun _ => ⟨[], rfl⟩
      · exact fun _ => id
    · cases returned
  · obtain ⟨⟨tree, behind⟩, valueRead, made⟩ := exists_of_bind_eq_ok returned
    cases made
    have sound := Grammar.expression_sound (Nested.sound_ofLevels maxNesting)
    obtain ⟨value, _, _, consumed, stops⟩ := sound _ _ _ valueRead
    dsimp only at endRefused
    split at endRefused
    · cases endRefused
    · cases endRefused
    · rename_i more noSeparator
      cases endRefused
      have fault : behind.FaultAt (fun _ => ⟨.behind value.endsInName, []⟩) (· = [])
          behind.position := by
        refine .here rfl (fun _ => ?_)
        rw [Pending.step_behind stops]
        unfold Pending.nextKind
        cases next : behind.next? with
        | none => exact absurd next more
        | some kind =>
            cases kind with
            | separator => exact absurd next noSeparator
            | _ => rfl
      apply fault.behind consumed
      · exact fun _ => ⟨[], value.after?_yield []⟩
      · rintro others rfl
        exact ⟨value, List.append_nil _ ▸ List.prefix_refl _⟩

theorem read_stuck {token : Token} {others : List Token} {stop : Position}
    (noSeparator : token.kind ≠ .separator) (noLimit : fault.cause.isLimit = false)
    (noFunction : ∀ function, fault.cause ≠ .assignedFunction function)
    (refused : read ⟨token :: others, stop, 0⟩ = .error fault) :
    Pending.FaultInStatement ⟨token :: others, stop, 0⟩ fault.position := by
  unfold read readBody at refused
  split at refused
  · rename_i target targetPosition equals tokens tokensEq
    cases tokensEq
    have inValue : Pending.FaultInValue ⟨tokens, stop, 0⟩ fault.position :=
      value_stuck noLimit (.assign target · targetPosition) refused
    exact inValue.assigned target targetPosition equals
  · cases refused
    exact absurd rfl (noFunction _)
  · rename_i noAssignment _
    have inValue : Pending.FaultInValue ⟨token :: others, stop, 0⟩ fault.position :=
      value_stuck noLimit .bare refused
    exact inValue.bare noSeparator noAssignment

end Statement

end SignalPatch
