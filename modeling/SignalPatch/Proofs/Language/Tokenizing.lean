import SignalPatch.Proofs.Language.LongestLexeme

/-!
# Tokenizing

The tokens of a text are those of the lexemes that it can be taken apart into, at
their positions.  A text that cannot be taken apart is refused at the first place
from which it cannot be read on.
-/

namespace SignalPatch

/-- Characters in front of which a gap ends. -/
structure IsSettled (characters : List Char) : Prop where
  noBlank : characters.head?.any isGapCharacter = false
  noComment : ∀ others, characters ≠ '/' :: '/' :: others

theorem leadingComment_of_isSettled {characters : List Char} (settled : IsSettled characters) :
    leadingComment characters = [] := by
  unfold leadingComment
  split
  · exact absurd rfl (settled.noComment _)
  · rfl

theorem IsGap.leadingGap_eq {gap rest : List Char} (isGap : IsGap gap rest)
    (settled : IsSettled rest) : leadingGap (gap ++ rest) = gap := by
  cases isGap with
  | blanks blank =>
      rw [leadingGap, isBlank_eq, takeWhile_append_of_boundary blank settled.noBlank,
        dropWhile_append_of_boundary blank settled.noBlank, leadingComment_of_isSettled settled,
        List.append_nil]
  | @comment blanks comment _ blank oneLine lineEnds =>
      have noBlank : ('/' :: '/' :: (comment ++ rest)).head?.any isGapCharacter = false := rfl
      have lineInside : ∀ character ∈ comment, (character != '\n') = true := by
        intro character member
        exact bne_iff_ne.mpr (fun same => oneLine (same ▸ member))
      have boundary : rest.head?.any (fun character => character != '\n') = false := by
        rcases lineEnds with rfl | newline
        · rfl
        · rw [newline]
          rfl
      have wholeEq : blanks ++ '/' :: '/' :: comment ++ rest =
          blanks ++ '/' :: '/' :: (comment ++ rest) := by
        rw [List.append_assoc]
        rfl
      rw [leadingGap, isBlank_eq, wholeEq, takeWhile_append_of_boundary blank noBlank,
        dropWhile_append_of_boundary blank noBlank, leadingComment,
        takeWhile_append_of_boundary lineInside boundary]

theorem exists_line (characters : List Char) :
    ∃ line rest, characters = line ++ rest ∧ '\n' ∉ line ∧
      (rest = [] ∨ rest.head? = some '\n') := by
  refine ⟨characters.takeWhile (fun character => character != '\n'),
    characters.dropWhile (fun character => character != '\n'),
    List.takeWhile_append_dropWhile.symm, ?_, ?_⟩
  · intro newline
    cases List.mem_takeWhile_imp newline
  · have boundary := boundary_dropWhile (fun character => character != '\n') characters
    cases restEq : characters.dropWhile (fun character => character != '\n') with
    | nil => exact Or.inl rfl
    | cons next others =>
        rw [restEq] at boundary
        have newline : (next != '\n') = false := boundary
        exact Or.inr (congrArg some (bne_eq_false_iff_eq.mp newline))

/-- Every text starts with a gap, and no gap goes on behind it. -/
theorem exists_isGap (characters : List Char) :
    ∃ gap rest, characters = gap ++ rest ∧ IsGap gap rest ∧ IsSettled rest := by
  have blank : ∀ character ∈ characters.takeWhile isGapCharacter, isGapCharacter character = true :=
    fun _ member => List.mem_takeWhile_imp member
  have wholeEq : characters =
      characters.takeWhile isGapCharacter ++ characters.dropWhile isGapCharacter :=
    List.takeWhile_append_dropWhile.symm
  by_cases comments : ∃ others, characters.dropWhile isGapCharacter = '/' :: '/' :: others
  · obtain ⟨others, othersEq⟩ := comments
    obtain ⟨comment, rest, rfl, oneLine, lineEnds⟩ := exists_line others
    refine ⟨characters.takeWhile isGapCharacter ++ '/' :: '/' :: comment, rest, ?_,
      .comment blank oneLine lineEnds, ?_⟩
    · rw [othersEq] at wholeEq
      rw [List.append_assoc]
      exact wholeEq
    · rcases lineEnds with rfl | newline
      · exact ⟨rfl, fun others same => nomatch same⟩
      · obtain ⟨behind, rfl⟩ := List.head?_eq_some_iff.mp newline
        exact ⟨rfl, fun others same => nomatch same⟩
  · exact ⟨_, _, wholeEq, .blanks blank, boundary_dropWhile _ _,
      fun others same => comments ⟨others, same⟩⟩

theorem IsSettled.nil : IsSettled [] :=
  ⟨rfl, fun _ same => nomatch same⟩

theorem isSettled_of_isStray {first : Char} {others : List Char} (stray : isStray first = true) :
    IsSettled (first :: others) := by
  refine ⟨Lexeme.isGapCharacter_of_isStray stray, ?_⟩
  intro behind same
  cases same
  cases stray

theorem IsWord.isSettled {word rest : List Char} (isWord : IsWord word rest) :
    IsSettled (word ++ rest) := by
  cases word with
  | nil => exact absurd rfl isWord.ne_nil
  | cons first others =>
      have inside := isWord.inside first (List.mem_cons_self ..)
      exact isSettled_of_isStray (Lexeme.isStray_of_isWordPart inside)

theorem IsLexeme.isSettled {kind : TokenKind} {text rest : List Char}
    (isLexeme : IsLexeme kind text rest) : IsSettled (text ++ rest) := by
  cases isLexeme with
  | symbol symbol noComment =>
      refine ⟨(Lexeme.class_of_symbol symbol).1, ?_⟩
      intro behind same
      cases same
      exact noComment rfl rfl
  | builtin word => exact word.isSettled
  | name word noFunction => exact word.isSettled
  | number complete clear =>
      obtain ⟨first, others, wholeEq, _, stray⟩ :=
        Numeral.startsNumber_of_source complete.toBegun complete.digits_ne_nil rest
      rw [wholeEq]
      exact isSettled_of_isStray stray

theorem IsRefused.isSettled {cause : Cause} {characters : List Char}
    (refused : IsRefused cause characters) : IsSettled characters := by
  cases refused with
  | character noBlank noSymbol noWord noNumeral =>
      refine ⟨noBlank, ?_⟩
      intro behind same
      cases same
      exact noSymbol .slash (by decide)
  | exponent begun digits_ne_nil found noDigits longest =>
      obtain ⟨first, others, wholeEq, _, stray⟩ :=
        Numeral.startsNumber_of_source begun digits_ne_nil _
      rw [wholeEq]
      exact isSettled_of_isStray stray
  | stray complete longest isStray =>
      obtain ⟨first, others, wholeEq, _, stray⟩ :=
        Numeral.startsNumber_of_source complete.toBegun complete.digits_ne_nil _
      rw [wholeEq]
      exact isSettled_of_isStray stray

namespace TokenStream

variable {gap rest : List Char} (position : Position) (before : Array Token)

theorem readFrom_of_end (isGap : IsGap gap []) :
    readFrom gap position before = .ok ⟨before.toList, position.advance gap⟩ := by
  have gapEq := isGap.leadingGap_eq IsSettled.nil
  rw [List.append_nil] at gapEq
  rw [readFrom]
  split
  · rw [gapEq]
  · rename_i same
    rw [gapEq, List.drop_length] at same
    cases same

theorem readFrom_of_refused {cause : Cause} (isGap : IsGap gap rest)
    (refused : IsRefused cause rest) :
    readFrom (gap ++ rest) position before = .error ⟨cause, position.advance gap⟩ := by
  have gapEq := isGap.leadingGap_eq refused.isSettled
  obtain ⟨first, others, restEq, failed⟩ := Lexeme.read_of_isRefused refused
  rw [readFrom]
  split
  · rename_i same
    rw [gapEq, List.drop_left, restEq] at same
    cases same
  · rename_i same
    rw [gapEq, List.drop_left, restEq] at same
    cases same
    split
    · rename_i failedAgain
      rw [failed] at failedAgain
      cases failedAgain
      rw [gapEq]
    · rename_i success
      rw [failed] at success
      cases success

theorem readFrom_of_lexeme {kind : TokenKind} {text : List Char}
    (isGap : IsGap gap (text ++ rest)) (isLexeme : IsLexeme kind text rest) :
    readFrom (gap ++ (text ++ rest)) position before =
      readFrom rest ((position.advance gap).advance text)
        (before.push ⟨kind, position.advance gap⟩) := by
  have gapEq := isGap.leadingGap_eq isLexeme.isSettled
  obtain ⟨first, others, wholeEq, success⟩ := Lexeme.read_of_isLexeme isLexeme
  rw [readFrom]
  split
  · rename_i same
    rw [gapEq, List.drop_left, wholeEq] at same
    cases same
  · rename_i same
    rw [gapEq, List.drop_left, wholeEq] at same
    cases same
    split
    · rename_i failed
      rw [success] at failed
      cases failed
    · rename_i successAgain
      rw [success] at successAgain
      cases successAgain
      simp only [gapEq]

/-- Pieces are read one after the other. -/
theorem readFrom_of_pieces {pieces : List Piece} (arePieces : ArePieces pieces rest)
    (passed : List Char) (before : Array Token) :
    readFrom (Piece.sources pieces ++ rest) (.behind passed) before =
      readFrom rest (.behind (passed ++ Piece.sources pieces))
        (before ++ (Piece.tokens passed pieces).toArray) := by
  induction arePieces generalizing passed before with
  | none rest => simp [Piece.sources, Piece.tokens]
  | @more piece others rest isGap isLexeme more ih =>
      have sourcesEq : Piece.sources (piece :: others) ++ rest =
          piece.gap ++ (piece.text ++ (Piece.sources others ++ rest)) := by
        simp [Piece.sources]
      have passedEq : passed ++ piece.gap ++ piece.text ++ Piece.sources others =
          passed ++ Piece.sources (piece :: others) := by
        simp [Piece.sources]
      rw [sourcesEq, readFrom_of_lexeme _ _ isGap isLexeme, Position.advance_behind,
        Position.advance_behind, ih, passedEq]
      simp [Piece.tokens]

/-- Every text can be read to its end, or to a rest that is refused. -/
theorem exists_isReadAs (characters : List Char) :
    ∃ pieces gap rest, IsReadAs characters pieces gap rest ∧
      (rest = [] ∨ ∃ cause, IsRefused cause rest) := by
  -- the induction is on the length: a lexeme is not empty, so its rest is shorter
  induction sizeEq : characters.length using Nat.strong_induction_on generalizing characters with
  | _ size ih =>
      obtain ⟨gap, rest, rfl, isGap, settled⟩ := exists_isGap characters
      cases rest with
      | nil => exact ⟨[], gap, [], ⟨rfl, .none _, isGap⟩, Or.inl rfl⟩
      | cons first others =>
          cases outcome : Lexeme.read first others with
          | error cause =>
              have refused := Lexeme.isRefused_of_read outcome settled.noBlank
              exact ⟨[], gap, first :: others, ⟨rfl, .none _, isGap⟩, Or.inr ⟨cause, refused⟩⟩
          | ok lexeme =>
              have noComment : first = '/' → others.head? ≠ some '/' := by
                rintro rfl again
                obtain ⟨behind, rfl⟩ := List.head?_eq_some_iff.mp again
                exact settled.noComment behind rfl
              have isLexeme := Lexeme.isLexeme_of_read outcome noComment
              have shorter := Lexeme.length_rest_lt outcome
              have wholeEq := Lexeme.text_append_rest outcome
              have smaller : lexeme.rest.length < size := by
                rw [← sizeEq, List.length_append]
                omega
              obtain ⟨pieces, lastGap, last, isRead, ends⟩ := ih _ smaller lexeme.rest rfl
              refine ⟨⟨gap, lexeme.kind, lexeme.text⟩ :: pieces, lastGap, last, ?_, ends⟩
              rw [← wholeEq] at isGap ⊢
              rw [isRead.whole] at isGap isLexeme ⊢
              exact ⟨by simp [Piece.sources], .more isGap isLexeme isRead.pieces, isRead.gap⟩

theorem readFrom_of_isReadAs {characters : List Char} {pieces : List Piece}
    (isRead : IsReadAs characters pieces gap rest) :
    readFrom characters .start #[] =
      readFrom (gap ++ rest) (.behind (Piece.sources pieces)) (Piece.tokens [] pieces).toArray := by
  have piecesRead := readFrom_of_pieces isRead.pieces [] #[]
  have startEq : Position.start = .behind [] := rfl
  rw [isRead.whole, startEq]
  simpa using piecesRead

theorem ofText_of_isReadAs {text : String} {pieces : List Piece}
    (isRead : IsReadAs text.toList pieces gap []) :
    ofText text = .ok ⟨Piece.tokens [] pieces, .behind text.toList⟩ := by
  have wholeEq := isRead.whole
  rw [ofText, readFrom_of_isReadAs isRead]
  rw [List.append_nil] at wholeEq ⊢
  rw [readFrom_of_end _ _ isRead.gap, Position.advance_behind, ← wholeEq]

theorem ofText_of_isRefused {text : String} {pieces : List Piece} {cause : Cause}
    (isRead : IsReadAs text.toList pieces gap rest) (refused : IsRefused cause rest) :
    ofText text = .error ⟨cause, .behind (Piece.sources pieces ++ gap)⟩ := by
  rw [ofText, readFrom_of_isReadAs isRead, readFrom_of_refused _ _ isRead.gap refused,
    Position.advance_behind]

/--
A text is read to its end exactly where it can be taken apart into gaps and longest
lexemes, and its tokens are those of the lexemes, each at the position of its first
character.  It is refused exactly where it can be taken apart only up to a gap in
front of something that is the lexeme of no token, and at the position of that.
-/
theorem ofText_iff (text : String) :
    (∀ stream, ofText text = .ok stream ↔
      ∃ pieces gap, IsReadAs text.toList pieces gap [] ∧
        stream = ⟨Piece.tokens [] pieces, .behind text.toList⟩) ∧
    (∀ fault, ofText text = .error fault ↔
      ∃ pieces gap rest, IsReadAs text.toList pieces gap rest ∧ IsRefused fault.cause rest ∧
        fault.position = .behind (Piece.sources pieces ++ gap)) := by
  -- one reading exists, and any reading determines the outcome
  obtain ⟨pieces, gap, rest, isRead, ends⟩ := exists_isReadAs text.toList
  refine ⟨?_, ?_⟩
  · intro stream
    constructor
    · intro success
      rcases ends with rfl | ⟨cause, refused⟩
      · rw [ofText_of_isReadAs isRead] at success
        cases success
        exact ⟨pieces, gap, isRead, rfl⟩
      · rw [ofText_of_isRefused isRead refused] at success
        cases success
    · rintro ⟨otherPieces, lastGap, otherRead, rfl⟩
      exact ofText_of_isReadAs otherRead
  · intro fault
    constructor
    · intro failed
      rcases ends with rfl | ⟨cause, refused⟩
      · rw [ofText_of_isReadAs isRead] at failed
        cases failed
      · rw [ofText_of_isRefused isRead refused] at failed
        cases failed
        exact ⟨pieces, gap, rest, isRead, refused, rfl⟩
    · rintro ⟨otherPieces, lastGap, otherRest, otherRead, refused, positionEq⟩
      rw [ofText_of_isRefused otherRead refused, ← positionEq]

example : ofText "a = .5e1 // five\n" =
    .ok ⟨[⟨.name "a", ⟨1, 1⟩⟩, ⟨.equals, ⟨1, 3⟩⟩, ⟨.number 5, ⟨1, 5⟩⟩, ⟨.separator, ⟨1, 17⟩⟩],
      ⟨2, 1⟩⟩ := by
  decide +kernel

end TokenStream

end SignalPatch
