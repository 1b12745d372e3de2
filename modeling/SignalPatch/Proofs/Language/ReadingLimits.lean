import Mathlib.Logic.Relation
import Mathlib.Order.WellFounded
import SignalPatch.Proofs.Language.PassedTerms

/-!
# Limits on reading

Reading comes to an end, as no reader can call others for ever.  It stays before the end of
the text, and the depth of the parser is that of what is being read, behind a fault as well
as behind what has been read.
-/

namespace SignalPatch

namespace Parser

variable {stream : TokenStream} {beyond : List Mark} {levels : Nat} {parser after : Parser}

/-- A statement that is read uses up at least one token. -/
theorem On.passes_statement (on : parser.On stream beyond) (depthEq : parser.depth = 0)
    {statement : Statement} (read : Parser.statement parser = .ok statement after) :
    Behind stream beyond parser after ∧ parser.index < after.index := by
  obtain ⟨behind, readList⟩ := (follows_statement parser on depthEq).of_ok read
  obtain ⟨token, others, tokensEq, suffix⟩ := Pending.exists_suffix_of_read readList
  have before : (parser.pending stream).tokens.length = stream.tokens.length - parser.index :=
    List.length_drop
  have left : (after.pending stream).tokens.length = stream.tokens.length - after.index :=
    List.length_drop
  have shorter := suffix.length_le
  rw [tokensEq, List.length_cons] at before
  exact ⟨behind, by omega⟩

/-- A call that is read uses up at least its parenthesis. -/
theorem On.index_lt_of_call (on : parser.On stream beyond)
    (depthEq : parser.depth + levels = maxNesting) {name : String} {position : Position}
    {tree : Expression} (read : call (.ofLevels levels) name position parser = .ok tree after) :
    parser.index < after.index := by
  have follows := followsNested_ofLevels stream beyond levels _ depthEq
  obtain ⟨_, opened, opening, read⟩ := exists_of_bind_eq read
  obtain ⟨_, passes⟩ := on.passes_expected opening rfl
  obtain ⟨_, middle, argumentsRead, read⟩ := exists_of_bind_eq read
  obtain ⟨behind, _⟩ :=
    (follows.arguments opened passes.behind.on passes.behind.depth_eq).of_ok argumentsRead
  obtain ⟨_, closed, closing, returned⟩ := exists_of_bind_eq read
  obtain ⟨_, closePasses⟩ := behind.on.passes_expected closing rfl
  cases returned
  have indexEq := passes.index_eq on
  have middleLe := behind.index_le
  have closedLe := closePasses.behind.index_le
  rw [List.length_singleton] at indexEq
  omega

/-- What a reader leaves, whether it succeeds or fails. -/
def left {Phrase : Type} (reading : Parsing Phrase) (parser : Parser) : Parser :=
  match reading parser with
  | .ok _ after => after
  | .error _ after => after

theorem left_discard {Phrase : Type} (reading : Parsing Phrase) :
    left (discard reading) parser = left reading parser := by
  change left (reading >>= fun _ => pure ()) parser = _
  cases readEq : reading parser with
  | ok phrase after =>
      simp only [left, bind_of_ok readEq, readEq]
      rfl
  | error fault after => simp only [left, bind_of_error readEq, readEq]

theorem Matches.left {Phrase : Type} {reading : Parsing Phrase}
    {outcome : Except Fault (Phrase × Pending)}
    (matched : Matches stream beyond parser (reading parser) outcome) :
    Behind stream beyond parser (Parser.left (discard reading) parser) := by
  rw [left_discard, Parser.left]
  generalize reading parser = result at matched
  cases matched with
  | ok behind => exact behind
  | error behind => exact behind

/-- A call that is not opened by a parenthesis leaves the parser where it is. -/
theorem left_call (on : parser.On stream beyond) (depthEq : parser.depth + levels = maxNesting)
    (name : String) (position : Position) :
    Behind stream beyond parser
      (left (discard (call (.ofLevels levels) name position)) parser) := by
  by_cases isNext : (parser.pending stream).next? = some .openParenthesis
  · have follows := followsNested_ofLevels stream beyond levels _ depthEq
    exact (follows_call follows name position on rfl isNext).left
  · rw [left_discard, left, call, bind_of_error (on.expect_of_not_next isNext)]
    exact .refl on

end Parser

namespace Task

open SignalPatch.Parser

variable {stream : TokenStream} {beyond : List Mark} {levels : Nat} {task next : Task}
  {parser nextParser : Parser}


/-- What is called goes on at the same depth, with fewer tokens or with a simpler task. -/
theorem Goes.behind (goes : Goes levels task parser next nextParser)
    (on : parser.On stream beyond) (depthEq : parser.depth + levels = maxNesting) :
    Behind stream beyond parser nextParser ∧
      (parser.index < nextParser.index ∨ next.rank < task.rank) := by
  by_cases inner : task.isOutermost = false
  · obtain ⟨consumed, passes, simpler⟩ := goes.passes inner on depthEq
    refine ⟨passes.behind, ?_⟩
    cases consumed with
    | nil => exact .inr (simpler rfl)
    | cons token others =>
        have indexEq := passes.index_eq on
        rw [List.length_cons] at indexEq
        exact .inl (by omega)
  · cases goes with
    | separators => exact ⟨.refl on, .inr (Nat.zero_lt_succ _)⟩
    | separator isNext => 
        obtain ⟨behind, _, indexEq⟩ := on.behind_advanced (on.nextIs_iff.mp isNext)
        exact ⟨behind, .inl (by omega)⟩
    | statement more =>
        obtain ⟨behind, _⟩ := On.behind_skipSeparators parser.remaining parser on on.le_remaining
        exact ⟨behind, .inr (Nat.lt_succ_self _)⟩
    | nextStatement more read =>
        obtain ⟨behind, _⟩ := On.behind_skipSeparators parser.remaining parser on on.le_remaining
        have outermost : parser.depth = 0 := by omega
        obtain ⟨behindRead, further⟩ :=
          behind.on.passes_statement (behind.depth_eq.trans outermost) read
        exact ⟨behind.trans behindRead, .inl (Nat.lt_of_le_of_lt behind.index_le further)⟩
    | assigned isName equals =>
        have onUncounted : parser.uncounted.On stream beyond := ⟨on.marks_eq, on.index_le⟩
        obtain ⟨_, _, _, tokensEq⟩ := onUncounted.exists_tokens isName equals
        obtain ⟨_, _, _, behind, further, _⟩ := onUncounted.behind_two tokensEq
        exact ⟨⟨behind.on, behind.depth_eq, behind.index_le⟩, .inl further⟩
    | bare => exact ⟨⟨⟨on.marks_eq, on.index_le⟩, rfl, Nat.le_refl _⟩, .inr (by decide)⟩
    | _ => exact absurd rfl inner

theorem Opens.behind {enclosure : Enclosure}
    (opens : Opens levels task parser enclosure next nextParser) (on : parser.On stream beyond)
    (depthEq : parser.depth + levels = maxNesting) :
    Behind stream beyond parser nextParser ∧ parser.index < nextParser.index := by
  obtain ⟨token, others, passes⟩ := opens.passes on depthEq
  have indexEq := passes.index_eq on
  rw [List.length_cons] at indexEq
  exact ⟨passes.behind, by omega⟩

/-- The loops that go round while a text is read. -/
inductive Loop where
  | statements | separators | operands (level : Level) | arguments

/-- The loop that a task is what remains of, if it is. -/
def loop? : Task → Option Loop
  | statements .. => some .statements
  | separators _ => some .separators
  | chain level .. => some (.operands level)
  | moreArguments .. => some .arguments
  | statement | phrase _ | call .. | arguments => none

/-- With every turn of a loop there are fewer tokens. -/
theorem Goes.further_of_loop (goes : Goes levels task parser next nextParser) {loop : Loop}
    (isLoop : task.loop? = some loop) (sameLoop : next.loop? = some loop)
    (on : parser.On stream beyond) (depthEq : parser.depth + levels = maxNesting) :
    parser.index < nextParser.index := by
  rcases (goes.behind on depthEq).2 with further | simpler
  · exact further
  · cases goes with
    | separator | nextStatement | nextOperand | nextArgument =>
        exact absurd simpler (Nat.lt_irrefl _)
    | separators =>
        cases isLoop
        cases sameLoop
    | statement | operand | anotherArgument => cases sameLoop
    | _ => cases isLoop

/-- Whether the turns of a loop cannot run out before the tokens do. -/
def HasTurns (stop : Nat) (parser : Parser) : Task → Prop
  | statements turns _ | separators turns | chain _ turns _ | moreArguments turns _ =>
      stop - parser.index ≤ turns
  | statement | phrase _ | call .. | arguments => True

theorem Goes.hasTurns (goes : Goes levels task parser next nextParser)
    (turns : task.HasTurns stream.tokens.length parser) (on : parser.On stream beyond)
    (depthEq : parser.depth + levels = maxNesting) :
    next.HasTurns stream.tokens.length nextParser := by
  have further : ∀ loop, task.loop? = some loop → next.loop? = some loop →
      parser.index < nextParser.index :=
    fun _ isLoop sameLoop => goes.further_of_loop isLoop sameLoop on depthEq
  have remainingLe := (goes.behind on depthEq).1.on.le_remaining
  cases goes with
  | separators | others | moreArguments => exact remainingLe
  | separator | nextStatement | nextOperand | nextArgument =>
      have indexLt := further _ rfl rfl
      simp only [HasTurns] at turns ⊢
      omega
  | _ => trivial

theorem Opens.hasTurns {enclosure : Enclosure} {stop : Nat}
    (opens : Opens levels task parser enclosure next nextParser) :
    next.HasTurns stop nextParser.deeper := by
  cases opens <;> trivial

theorem Goes.isOutermost_of_next (goes : Goes levels task parser next nextParser)
    (outermost : next.isOutermost = true) : task.isOutermost = true := by
  cases goes with
  | separators | separator | statement | nextStatement => rfl
  | _ => cases outermost

theorem Goes.levels_eq (goes : Goes levels task parser next nextParser)
    (outermost : task.isOutermost = true) : levels = maxNesting := by
  cases goes with
  | separators | separator | statement | nextStatement | assigned | bare => rfl
  | _ => cases outermost

theorem Opens.isOutermost {enclosure : Enclosure}
    (opens : Opens levels task parser enclosure next nextParser) :
    task.isOutermost = false ∧ next.isOutermost = false := by
  cases opens <;> exact ⟨rfl, rfl⟩

theorem Meets.isOutermost {meeting : Parser} (meets : Meets levels task parser meeting) :
    task.isOutermost = false := by
  cases meets <;> rfl

end Task

/-- A reader at work on a task, where so many more levels may be nested. -/
structure Activation where
  levels : Nat
  /-- What the task is nested in, the innermost first. -/
  around : List Enclosure
  task : Task
  parser : Parser

namespace Activation

open SignalPatch.Parser

/-- One reader calls another one, or goes on with the next turn of its loop. -/
inductive Calls : Activation → Activation → Prop where
  | goes {levels : Nat} {around : List Enclosure} {task next : Task} {parser nextParser : Parser}
      (goes : Task.Goes levels task parser next nextParser) :
      Calls ⟨levels, around, task, parser⟩ ⟨levels, around, next, nextParser⟩
  | opens {levels : Nat} {around : List Enclosure} {task inner : Task} {enclosure : Enclosure}
      {parser innerParser : Parser}
      (opens : Task.Opens (levels + 1) task parser enclosure inner innerParser)
      (within : innerParser.depth < maxNesting) :
      Calls ⟨levels + 1, around, task, parser⟩
        ⟨levels, enclosure :: around, inner, innerParser.deeper⟩

def Fails (fault : Fault) (activation : Activation) : Prop :=
  Parser.Fails (activation.task.reading activation.levels) activation.parser fault

/-- The parser as the reader leaves it, whether it succeeds or fails. -/
def left (activation : Activation) : Parser :=
  Parser.left (activation.task.reading activation.levels) activation.parser

/-- A reader at work before the end of a text, at the depth of what it is nested in. -/
structure Placed (stream : TokenStream) (beyond : List Mark) (activation : Activation) : Prop where
  on : activation.parser.On stream beyond
  levels_add : activation.parser.depth + activation.levels = maxNesting
  depth_eq : activation.parser.depth = activation.around.length
  around_eq : activation.task.isOutermost = true → activation.around = []
  hasTurns : activation.task.HasTurns stream.tokens.length activation.parser

variable {stream : TokenStream} {beyond : List Mark} {activation next : Activation} {fault : Fault}

/-- How many tokens are left, and with as many of them, how complex a task is. -/
def size (stream : TokenStream) (activation : Activation) : Nat × Nat :=
  (stream.tokens.length - activation.parser.index, activation.task.rank)

theorem Placed.calls (placed : activation.Placed stream beyond) (calls : activation.Calls next) :
    next.Placed stream beyond := by
  obtain ⟨on, levelsAdd, depthEq, aroundEq, hasTurns⟩ := placed
  cases calls with
  | goes goes =>
      have behind := (goes.behind on levelsAdd).1
      exact ⟨behind.on, by rw [behind.depth_eq, levelsAdd], behind.depth_eq.trans depthEq,
        fun outermost => aroundEq (goes.isOutermost_of_next outermost),
        goes.hasTurns hasTurns on levelsAdd⟩
  | @opens levels around task inner enclosure parser innerParser opens within =>
      have behind := (opens.behind on levelsAdd).1
      have levelsAdd : parser.depth + (levels + 1) = maxNesting := levelsAdd
      have depthEq : parser.depth = around.length := depthEq
      have innerDepth : innerParser.deeper.depth = parser.depth + 1 :=
        congrArg Nat.succ behind.depth_eq
      refine ⟨⟨behind.on.marks_eq, behind.on.index_le⟩, ?_, ?_, fun outermost => ?_,
        opens.hasTurns⟩
      · change innerParser.deeper.depth + levels = maxNesting
        omega
      · change innerParser.deeper.depth = around.length + 1
        omega
      · exact absurd (opens.isOutermost.2.symm.trans outermost) nofun

theorem Placed.size_lt (placed : activation.Placed stream beyond)
    (calls : activation.Calls next) :
    Prod.Lex (· < ·) (· < ·) (next.size stream) (activation.size stream) := by
  have fewer : activation.parser.index < next.parser.index →
      stream.tokens.length - next.parser.index <
        stream.tokens.length - activation.parser.index := by
    intro further
    exact Nat.sub_lt_sub_left (Nat.lt_of_lt_of_le further (placed.calls calls).on.index_le) further
  cases calls with
  | @goes levels around task next parser nextParser goes =>
      obtain ⟨behind, further | simpler⟩ := goes.behind placed.on placed.levels_add
      · exact Prod.lex_def.mpr (.inl (fewer further))
      · rcases Nat.lt_or_eq_of_le behind.index_le with further | same
        · exact Prod.lex_def.mpr (.inl (fewer further))
        · exact Prod.lex_def.mpr (.inr ⟨congrArg (stream.tokens.length - ·) same.symm, simpler⟩)
  | opens opens within =>
      have further := (opens.behind placed.on placed.levels_add).2
      exact Prod.lex_def.mpr (.inl (fewer further))

/-- No reader can call others for ever. -/
theorem Placed.acc (placed : activation.Placed stream beyond) :
    Acc (fun next activation : Activation => activation.Calls next) activation := by
  have wellFounded : WellFounded (InvImage (Prod.Lex (· < ·) (· < ·)) (size stream)) :=
    InvImage.wf (size stream) (WellFounded.prod_lex Nat.lt_wfRel.wf Nat.lt_wfRel.wf)
  induction activation using wellFounded.induction with
  | _ activation ih =>
      exact .intro activation fun next calls => ih next (placed.size_lt calls) (placed.calls calls)

theorem Calls.fails (calls : activation.Calls next) (failed : next.Fails fault) :
    activation.Fails fault := by
  cases calls with
  | goes goes => exact goes.fails failed
  | opens opens within => exact opens.fails (.inr ⟨within, failed⟩)

/-- The place of a fault in the reader that raises it. -/
inductive Raises (activation : Activation) (fault : Fault) : Prop where
  | tooMany {meeting : Parser}
      (meets : Task.Meets activation.levels activation.task activation.parser meeting)
      (full : maxTerms ≤ meeting.terms) (fault_eq : fault = ⟨.tooManyTerms, meeting.next.position⟩)
  | tooDeep {enclosure : Enclosure} {inner : Task} {innerParser : Parser}
      (opens : Task.Opens activation.levels activation.task activation.parser enclosure inner
        innerParser)
      (full : maxNesting ≤ innerParser.depth)
      (fault_eq : fault = ⟨.nestedTooDeeply, innerParser.next.position⟩)
  | refused (noLimit : fault.cause.isLimit = false)

/-- Behind a reader the depth is what it was, and the end is not passed, whatever it finds. -/
theorem Placed.left (placed : activation.Placed stream beyond) :
    Behind stream beyond activation.parser activation.left := by
  obtain ⟨on, levelsAdd, depthEq, aroundEq, hasTurns⟩ := placed
  obtain ⟨levels, around, task, parser⟩ := activation
  have outermost : task.isOutermost = true → parser.depth = 0 := by
    intro isOutermost
    have depthEq : parser.depth = around.length := depthEq
    rw [depthEq, show around = [] from aroundEq isOutermost]
    rfl
  have follows := followsNested_ofLevels stream beyond levels _ levelsAdd
  have enough : stream.tokens.length - parser.index ≤ stream.tokens.length := Nat.sub_le _ _
  cases task with
  | statements turns completed =>
      have matched := follows_statements stream.tokens turns completed parser on
        (outermost rfl) enough hasTurns
      change Behind stream beyond parser (Parser.left _ parser)
      simp only [Parser.left, Task.reading]
      generalize statements turns completed parser = result at matched ⊢
      generalize Statement.readAll _ _ _ _ = outcome at matched
      cases matched with
      | ok behind => exact behind
      | error behind => exact behind
  | separators turns => exact (On.behind_skipSeparators turns parser on hasTurns).1
  | statement =>
      exact (follows_statement parser on (outermost rfl)).left
  | phrase level =>
      exact (follows_ofLevel level levelsAdd parser on rfl).left
  | chain level turns left =>
      exact (follows_chain (follows_ofLevel level levelsAdd) stream.tokens turns left parser on rfl
        enough hasTurns).left
  | call name position =>
      exact left_call on levelsAdd name position
  | arguments =>
      exact (follows_arguments follows parser on rfl).left
  | moreArguments turns before =>
      exact (follows_moreArguments (follows_expression follows) stream.tokens turns before parser on
        rfl enough hasTurns).left

/-- A fault of a reader is raised by it or by one that is called on its behalf. -/
theorem Placed.exists_raises (placed : activation.Placed stream beyond)
    (failed : activation.Fails fault) :
    ∃ raising, Relation.ReflTransGen Calls activation raising ∧ raising.Raises fault := by
  have accessible := placed.acc
  induction accessible with
  | intro activation _ ih =>
      have outermost : activation.task.isOutermost = true → activation.levels = maxNesting := by
        intro outermost
        have levelsAdd := placed.levels_add
        have depthEq := placed.depth_eq
        rw [placed.around_eq outermost, List.length_nil] at depthEq
        omega
      have goesOn : ∀ {next}, activation.Calls next → next.Fails fault →
          ∃ raising, Relation.ReflTransGen Calls activation raising ∧ raising.Raises fault := by
        intro next calls nextFailed
        obtain ⟨raising, path, raises⟩ := ih next calls (placed.calls calls) nextFailed
        exact ⟨raising, .head calls path, raises⟩
      obtain ⟨levels, around, task, parser⟩ := activation
      cases Task.blames_of_fails outermost failed with
      | tooMany meets full faultEq => exact ⟨_, .refl, .tooMany meets full faultEq⟩
      | refused noLimit => exact ⟨_, .refl, .refused noLimit⟩
      | goes goes nextFailed => exact goesOn (.goes goes) nextFailed
      | opens opens innerFailed =>
          cases levels with
          | zero =>
              have depthEq := (opens.behind placed.on placed.levels_add).1.depth_eq
              have full : maxNesting ≤ _ := Nat.le_of_eq (placed.levels_add.symm.trans depthEq.symm)
              exact ⟨_, .refl, .tooDeep opens full innerFailed⟩
          | succ levels =>
              rcases innerFailed with ⟨full, faultEq⟩ | ⟨within, innerFailed⟩
              · exact ⟨_, .refl, .tooDeep opens full faultEq⟩
              · exact goesOn (.opens opens within) innerFailed

theorem fails_of_path {raising : Activation}
    (path : Relation.ReflTransGen Calls activation raising) (failed : raising.Fails fault) :
    activation.Fails fault := by
  induction path using Relation.ReflTransGen.head_induction_on with
  | refl => exact failed
  | head calls _ ih => exact calls.fails ih

end Activation

end SignalPatch
