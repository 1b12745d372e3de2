import SignalPatch.Proofs.Language.ReaderSoundness

/-!
# The cursor of a parser

As long as the cursor of a parser is not behind the end of a text, what is next is known from
the tokens that are left.  What a reader makes of the parser is told by what a reader of lists
makes of these: the same phrase or the same fault, with a cursor that is not before where it
was and not behind the end, and at the same depth.
-/

namespace SignalPatch

/-- The token that is next is the first one of those pending. -/
theorem Pending.tokens_of_next {pending : Pending} {kind : TokenKind}
    (next : pending.next? = some kind) :
    pending.tokens = ⟨kind, pending.position⟩ :: pending.advance.tokens := by
  obtain ⟨tokens, stop, terms⟩ := pending
  cases tokens with
  | nil => cases next
  | cons token others =>
      cases next
      rfl

namespace Parser

variable (stream : TokenStream) (beyond : List Mark)

/-- A parser of the tokens of a text, with whatever marks behind its end, that is at most there. -/
structure On (parser : Parser) : Prop where
  marks_eq : parser.marks = (stream.marks ++ beyond).toArray
  index_le : parser.index ≤ stream.tokens.length

/-- What is pending where the cursor is. -/
def pending (parser : Parser) : Pending :=
  ⟨stream.tokens.drop parser.index, stream.stop, parser.terms⟩

/-- What is left of a parser behind a reader: it has gone on, and is nested as before. -/
structure Behind (before after : Parser) : Prop where
  on : after.On stream beyond
  depth_eq : after.depth = before.depth
  index_le : before.index ≤ after.index

variable {stream beyond} {parser before middle after counted : Parser} {kind : TokenKind}

theorem terms_advanced : parser.advanced.terms = parser.terms := by
  rw [advanced]
  split <;> rfl

theorem Behind.refl (on : parser.On stream beyond) : Behind stream beyond parser parser :=
  ⟨on, rfl, Nat.le_refl _⟩

theorem Behind.trans (first : Behind stream beyond before middle)
    (second : Behind stream beyond middle after) : Behind stream beyond before after :=
  ⟨second.on, second.depth_eq.trans first.depth_eq, Nat.le_trans first.index_le second.index_le⟩

theorem next?_pending_of_length_le (passed : stream.tokens.length ≤ parser.index) :
    (parser.pending stream).next? = none := by
  rw [Pending.next?, pending, List.drop_eq_nil_of_le passed]
  rfl

namespace On

variable (on : parser.On stream beyond)

include on

theorem getElem?_index :
    parser.marks[parser.index]? =
      some ⟨(parser.pending stream).next?, (parser.pending stream).position⟩ := by
  rw [on.marks_eq, List.getElem?_toArray, TokenStream.marks, List.append_assoc]
  rcases Nat.lt_or_eq_of_le on.index_le with inside | atEnd
  · have dropEq : stream.tokens.drop parser.index =
        stream.tokens[parser.index] :: stream.tokens.drop (parser.index + 1) :=
      List.drop_eq_getElem_cons inside
    rw [List.getElem?_append_left (by rwa [List.length_map]), List.getElem?_map,
      List.getElem?_eq_getElem inside]
    simp only [pending, Pending.next?, Pending.position, dropEq]
    rfl
  · rw [List.getElem?_append_right (by simp [atEnd])]
    simp [pending, Pending.next?, Pending.position, atEnd]

theorem index_lt : parser.index < parser.marks.size :=
  (Array.getElem?_eq_some_iff.mp on.getElem?_index).1

theorem next_eq :
    parser.next = ⟨(parser.pending stream).next?, (parser.pending stream).position⟩ := by
  have inside := on.index_lt
  have unclamped : min parser.index (parser.marks.size - 1) = parser.index :=
    Nat.min_eq_left (Nat.le_sub_one_of_lt inside)
  rw [next, unclamped, Array.getD_eq_getD_getElem?, on.getElem?_index, Option.getD_some]

theorem position_eq : parser.position = (parser.pending stream).position := by
  rw [position, on.getElem?_index]
  rfl

theorem isEmpty_eq : parser.marks.isEmpty = false := by
  rw [Array.isEmpty_eq_false_iff]
  exact Array.ne_empty_of_size_pos (Nat.zero_lt_of_lt on.index_lt)

theorem isAtEnd_eq : parser.isAtEnd = (parser.pending stream).next?.isNone := by
  rw [isAtEnd, on.isEmpty_eq, Bool.false_or, on.next_eq]

theorem nextIs_iff : parser.nextIs kind = true ↔ (parser.pending stream).next? = some kind := by
  rw [nextIs, on.next_eq, beq_iff_eq]

theorem index_lt_of_next (next : (parser.pending stream).next? = some kind) :
    parser.index < stream.tokens.length := by
  refine Nat.lt_of_le_of_ne on.index_le fun atEnd => ?_
  simp [pending, Pending.next?, atEnd] at next

theorem behind_advanced (next : (parser.pending stream).next? = some kind) :
    Behind stream beyond parser parser.advanced ∧
      parser.advanced.pending stream = (parser.pending stream).advance ∧
      parser.advanced.index = parser.index + 1 := by
  have inside := on.index_lt_of_next next
  rw [advanced, if_pos on.index_lt]
  refine ⟨⟨⟨on.marks_eq, inside⟩, rfl, Nat.le_succ _⟩, ?_, rfl⟩
  simp only [pending, Pending.advance, List.tail_drop]

theorem kindAfterNext?_eq (next : (parser.pending stream).next? = some kind) :
    parser.kindAfterNext? = some (parser.pending stream).advance.next? := by
  obtain ⟨behind, pendingEq, indexEq⟩ := on.behind_advanced next
  have marksEq : parser.advanced.marks = parser.marks :=
    behind.on.marks_eq.trans on.marks_eq.symm
  rw [kindAfterNext?, ← indexEq, ← marksEq, behind.on.getElem?_index, pendingEq]
  rfl

end On

/-- There are no fewer turns for a loop than there are tokens. -/
theorem On.le_remaining (on : parser.On stream beyond) :
    stream.tokens.length - parser.index ≤ parser.remaining := by
  have sizeEq : parser.marks.size = stream.tokens.length + 1 + beyond.length := by
    simp [on.marks_eq, TokenStream.marks, Nat.add_assoc, Nat.add_comm 1]
  rw [remaining, sizeEq]
  omega

/-- The first two tokens of a statement, as the cursor shows them. -/
theorem On.exists_tokens (on : parser.On stream beyond) {first second : TokenKind}
    (firstEq : parser.next.kind = some first)
    (secondEq : parser.kindAfterNext? = some (some second)) :
    ∃ position other others, (parser.pending stream).tokens =
      ⟨first, position⟩ :: ⟨second, other⟩ :: others := by
  rw [on.next_eq] at firstEq
  have tokensEq := Pending.tokens_of_next firstEq
  rw [on.kindAfterNext?_eq firstEq, Option.some_inj] at secondEq
  exact ⟨_, _, _, tokensEq.trans (congrArg _ (Pending.tokens_of_next secondEq))⟩

/-- Two tokens are passed. -/
theorem On.behind_two (on : parser.On stream beyond) {first second : Token} {others : List Token}
    (tokensEq : (parser.pending stream).tokens = first :: second :: others) :
    parser.next.kind = some first.kind ∧ parser.kindAfterNext? = some (some second.kind) ∧
      parser.position = first.position ∧
      Behind stream beyond parser parser.advanced.advanced ∧
      parser.index < parser.advanced.advanced.index ∧
      parser.advanced.advanced.pending stream = ⟨others, stream.stop, parser.terms⟩ := by
  have firstNext : (parser.pending stream).next? = some first.kind := by
    rw [Pending.next?, tokensEq]
    rfl
  have secondNext : (parser.pending stream).advance.next? = some second.kind := by
    rw [Pending.next?, Pending.advance, tokensEq]
    rfl
  obtain ⟨behindFirst, firstEq, indexEq⟩ := on.behind_advanced firstNext
  obtain ⟨behindSecond, secondEq, _⟩ := behindFirst.on.behind_advanced (firstEq ▸ secondNext)
  refine ⟨?_, ?_, ?_, behindFirst.trans behindSecond,
    Nat.lt_of_lt_of_le (Nat.lt_of_lt_of_eq (Nat.lt_succ_self _) indexEq.symm)
      behindSecond.index_le, ?_⟩
  · rw [on.next_eq, firstNext]
  · rw [on.kindAfterNext?_eq firstNext, secondNext]
  · rw [on.position_eq, Pending.position, tokensEq]
  · rw [secondEq, firstEq, Pending.advance, Pending.advance, tokensEq]
    rfl

/-- Separators are passed as far as they go. -/
theorem On.behind_skipSeparators (steps : Nat) :
    ∀ parser : Parser, parser.On stream beyond → stream.tokens.length - parser.index ≤ steps →
      Behind stream beyond parser (skipSeparators steps parser) ∧
      ((skipSeparators steps parser).pending stream).tokens =
        (parser.pending stream).tokens.dropWhile (fun token => token.kind == .separator) := by
  induction steps with
  | zero =>
      intro parser on enough
      have noTokens : (parser.pending stream).tokens = [] := List.drop_eq_nil_of_le (by omega)
      exact ⟨.refl on, by rw [skipSeparators, noTokens, List.dropWhile_nil]⟩
  | succ steps ih =>
      intro parser on enough
      rw [skipSeparators, on.isEmpty_eq, Bool.not_false, Bool.true_and]
      by_cases isNext : (parser.pending stream).next? = some .separator
      · rw [if_pos (on.nextIs_iff.mpr isNext)]
        obtain ⟨behind, pendingEq, indexEq⟩ := on.behind_advanced isNext
        obtain ⟨behindOthers, tokensEq⟩ := ih parser.advanced behind.on (by omega)
        refine ⟨behind.trans behindOthers, ?_⟩
        rw [tokensEq, pendingEq, Pending.tokens_of_next isNext]
        rfl
      · rw [if_neg (mt on.nextIs_iff.mp isNext)]
        refine ⟨.refl on, ?_⟩
        cases tokensEq : (parser.pending stream).tokens with
        | nil => rfl
        | cons token others =>
            rw [Pending.next?, tokensEq, List.head?_cons, Option.map_some,
              Option.some_inj] at isNext
            rw [List.dropWhile_cons_of_neg (by simpa using isNext)]

section Steps

variable {First Second Phrase : Type} {first : Parsing First} {next : First → Parsing Second}
  {phrase : First} {fault : Fault}

theorem get_bind (next : Parser → Parsing Second) (parser : Parser) :
    ((get : Parsing Parser) >>= next) parser = next parser parser :=
  rfl

theorem advance_bind (next : Unit → Parsing Second) (parser : Parser) :
    (advance >>= next) parser = next () parser.advanced :=
  rfl

theorem bind_of_ok (succeeded : first parser = .ok phrase after) :
    (first >>= next) parser = next phrase after := by
  change EStateM.bind first next parser = _
  rw [EStateM.bind, succeeded]

theorem bind_of_error (failed : first parser = .error fault after) :
    (first >>= next) parser = .error fault after := by
  change EStateM.bind first next parser = _
  rw [EStateM.bind, failed]

theorem exists_of_bind_eq {phrase : Second}
    (bound : (first >>= next) parser = .ok phrase after) :
    ∃ middle passed, first parser = .ok middle passed ∧ next middle passed = .ok phrase after := by
  cases firstEq : first parser with
  | ok middle passed =>
      rw [bind_of_ok firstEq] at bound
      exact ⟨middle, passed, rfl, bound⟩
  | error fault passed =>
      rw [bind_of_error firstEq] at bound
      cases bound

theorem countTerm_of_lt (few : parser.terms < maxTerms) :
    countTerm parser = .ok () parser.counted := by
  have noRefusal : ¬ maxTerms < parser.counted.terms := Nat.not_lt.mpr few
  change (if maxTerms < parser.counted.terms then refuse .tooManyTerms else pure () : Parsing Unit)
    parser.counted = _
  rw [if_neg noRefusal]
  rfl

theorem countTerm_of_full (full : maxTerms ≤ parser.terms) :
    countTerm parser = .error ⟨.tooManyTerms, parser.next.position⟩ parser.counted := by
  have refusal : maxTerms < parser.counted.terms := Nat.lt_succ_of_le full
  change (if maxTerms < parser.counted.terms then refuse .tooManyTerms else pure () : Parsing Unit)
    parser.counted = _
  rw [if_pos refusal]
  rfl

theorem countTerm_eq_ok (count : countTerm parser = .ok () counted) :
    parser.terms < maxTerms ∧ counted = parser.counted := by
  rcases Nat.lt_or_ge parser.terms maxTerms with few | full
  · rw [countTerm_of_lt few] at count
    cases count
    exact ⟨few, rfl⟩
  · rw [countTerm_of_full full] at count
    cases count

theorem expect_eq_ok (expected : expect kind parser = .ok () after) :
    parser.nextIs kind = true ∧ after = parser.advanced := by
  rw [expect, get_bind] at expected
  split at expected
  · rename_i isNext
    cases expected
    exact ⟨isNext, rfl⟩
  · cases expected

end Steps

section Agreement

/--
A result of a reader with a cursor is that of a reader of lists: the same phrase with what is
pending behind it, or the same fault, which then is at the next mark.
-/
inductive Matches (stream : TokenStream) (beyond : List Mark) (before : Parser) {Phrase : Type} :
    EStateM.Result Fault Parser Phrase → Except Fault (Phrase × Pending) → Prop where
  | ok {phrase : Phrase} {after : Parser} (behind : Behind stream beyond before after) :
      Matches stream beyond before (.ok phrase after) (.ok (phrase, after.pending stream))
  | error {fault : Fault} {after : Parser} (behind : Behind stream beyond before after)
      (position_eq : fault.position = after.next.position) :
      Matches stream beyond before (.error fault after) (.error fault)

variable {First Second Phrase : Type} {first : Parsing First} {next : First → Parsing Second}
  {firstRead : Except Fault (First × Pending)}
  {nextRead : First × Pending → Except Fault (Second × Pending)}
  {result : EStateM.Result Fault Parser Phrase} {outcome : Except Fault (Phrase × Pending)}

theorem Matches.trans (behind : Behind stream beyond before middle)
    (matched : Matches stream beyond middle result outcome) :
    Matches stream beyond before result outcome := by
  cases matched with
  | ok later => exact .ok (behind.trans later)
  | error later positionEq => exact .error (behind.trans later) positionEq

theorem Matches.of_ok {Phrase : Type} {reading : Parsing Phrase} {phrase : Phrase}
    {outcome : Except Fault (Phrase × Pending)}
    (matched : Matches stream beyond parser (reading parser) outcome)
    (succeeded : reading parser = .ok phrase after) :
    Behind stream beyond parser after ∧ outcome = .ok (phrase, after.pending stream) := by
  rw [succeeded] at matched
  cases matched with
  | ok behind => exact ⟨behind, rfl⟩

theorem Matches.bind (matched : Matches stream beyond before (first parser) firstRead)
    (goesOn : ∀ phrase after, Behind stream beyond before after →
      Matches stream beyond after (next phrase after) (nextRead (phrase, after.pending stream))) :
    Matches stream beyond before ((first >>= next) parser) (firstRead >>= nextRead) := by
  cases resultEq : first parser with
  | ok phrase after =>
      rw [resultEq] at matched
      cases matched with
      | ok behind =>
          rw [bind_of_ok resultEq]
          exact (goesOn phrase after behind).trans behind
  | error fault after =>
      rw [resultEq] at matched
      cases matched with
      | error behind positionEq =>
          rw [bind_of_error resultEq]
          exact .error behind positionEq

theorem On.matches_refuse (on : parser.On stream beyond) (cause : Cause) :
    Matches stream beyond parser ((refuse cause : Parsing Phrase) parser)
      ((parser.pending stream).refuse cause) := by
  have positionEq : parser.next.position = (parser.pending stream).position := by rw [on.next_eq]
  rw [refuse, Pending.refuse, ← positionEq]
  exact .error (.refl on) rfl

theorem On.unexpected_eq (on : parser.On stream beyond) (wanted : Wanted) :
    (unexpected wanted : Parsing Phrase) parser =
      .error ⟨.unexpectedToken wanted (parser.pending stream).next?,
        (parser.pending stream).position⟩ parser := by
  change (refuse (.unexpectedToken wanted parser.next.kind) : Parsing Phrase) parser = _
  rw [refuse, on.next_eq]

theorem On.matches_unexpected (on : parser.On stream beyond) (wanted : Wanted) :
    Matches stream beyond parser ((unexpected wanted : Parsing Phrase) parser)
      ((parser.pending stream).unexpected wanted) := by
  rw [on.unexpected_eq]
  exact .error (.refl on) (by rw [on.next_eq])

/-- A term is counted and passed. -/
theorem On.matches_count {next : Parsing Phrase}
    {nextRead : Pending → Except Fault (Phrase × Pending)} (on : parser.On stream beyond)
    (isNext : (parser.pending stream).next? = some kind)
    (goesOn : ∀ after counted, Behind stream beyond parser after →
      after.index = parser.index + 1 → after.pending stream = counted.advance →
      Matches stream beyond after (next after) (nextRead counted)) :
    Matches stream beyond parser
      ((countTerm >>= fun _ => advance >>= fun _ => next) parser)
      ((parser.pending stream).countTerm >>= nextRead) := by
  have onCounted : parser.counted.On stream beyond := ⟨on.marks_eq, on.index_le⟩
  rcases Nat.lt_or_ge parser.terms maxTerms with few | full
  · have countEq : (parser.pending stream).countTerm = .ok (parser.counted.pending stream) :=
      if_pos few
    obtain ⟨behind, pendingEq, indexEq⟩ := onCounted.behind_advanced isNext
    have behind : Behind stream beyond parser parser.counted.advanced :=
      ⟨behind.on, behind.depth_eq, behind.index_le⟩
    rw [bind_of_ok (countTerm_of_lt few), advance_bind, countEq]
    exact (goesOn _ _ behind indexEq pendingEq).trans behind
  · have countEq : (parser.pending stream).countTerm =
        .error ⟨.tooManyTerms, parser.next.position⟩ := by
      rw [on.next_eq]
      exact if_neg (Nat.not_lt.mpr full)
    rw [bind_of_error (countTerm_of_full full), countEq]
    exact .error ⟨onCounted, rfl, Nat.le_refl _⟩ rfl

theorem On.expect_of_next (on : parser.On stream beyond)
    (isNext : (parser.pending stream).next? = some kind) :
    expect kind parser = .ok () parser.advanced := by
  rw [expect, get_bind, if_pos (on.nextIs_iff.mpr isNext)]
  rfl

theorem On.expect_of_not_next (on : parser.On stream beyond)
    (noNext : ¬ (parser.pending stream).next? = some kind) :
    expect kind parser =
      .error ⟨.unexpectedToken (.token kind) (parser.pending stream).next?,
        (parser.pending stream).position⟩ parser := by
  rw [expect, get_bind, if_neg (mt on.nextIs_iff.mp noNext)]
  exact on.unexpected_eq _

/-- A closing parenthesis is passed. -/
theorem On.matches_close {next : Parsing Phrase}
    {nextRead : Pending → Except Fault (Phrase × Pending)} (on : parser.On stream beyond)
    (goesOn : ∀ after, Behind stream beyond parser after →
      Matches stream beyond after (next after) (nextRead (after.pending stream))) :
    Matches stream beyond parser ((expect .closeParenthesis >>= fun _ => next) parser)
      ((parser.pending stream).close >>= nextRead) := by
  by_cases isNext : (parser.pending stream).next? = some .closeParenthesis
  · obtain ⟨behind, pendingEq, _⟩ := on.behind_advanced isNext
    have closeEq : (parser.pending stream).close = .ok (parser.advanced.pending stream) := by
      rw [Pending.close, isNext, pendingEq]
    rw [bind_of_ok (on.expect_of_next isNext), closeEq]
    exact (goesOn _ behind).trans behind
  · have closeEq : (parser.pending stream).close =
        (parser.pending stream).unexpected (.token .closeParenthesis) := by
      rw [Pending.close]
      split
      · rename_i closes
        exact absurd closes isNext
      · rfl
    rw [bind_of_error (on.expect_of_not_next isNext), closeEq]
    exact .error (.refl on) (by rw [on.next_eq])

end Agreement

end Parser

end SignalPatch
