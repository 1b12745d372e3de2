import SignalPatch.Proofs.Language.MovedPositions
import SignalPatch.Proofs.Language.Tokenizing

/-!
# Tokens of texts written one below the other

A newline ends every lexeme and every comment.  So the tokens of two texts with a
newline between them are those of the first one, a separator, and those of the
second one, moved down by the lines above them.
-/

namespace SignalPatch

/-- The position so many lines further down. -/
def Position.below (lines : Nat) (position : Position) : Position :=
  ⟨position.line + lines, position.column⟩

/-- A text, a newline and another text. -/
def joinedText (first second : String) : String :=
  first ++ "\n" ++ second

/-- How many lines a text puts above what is written below it. -/
def linesAbove (first : String) : Nat :=
  first.toList.count '\n' + 1

theorem toList_joinedText (first second : String) :
    (joinedText first second).toList = first.toList ++ '\n' :: second.toList := by
  simp [joinedText]

/-- Nothing above the last newline matters to a column. -/
theorem Position.behind_below (above passed : List Char) :
    behind (above ++ '\n' :: passed) = (behind passed).below (above.count '\n' + 1) := by
  induction passed using List.reverseRecOn with
  | nil => simp [behind, below]; omega
  | append_singleton passed character ih =>
      have whole : above ++ '\n' :: (passed ++ [character]) =
          (above ++ '\n' :: passed) ++ [character] := by simp
      rw [whole, behind_concat, behind_concat, ih]
      by_cases newline : character = '\n'
      · simp [step, below, newline]; omega
      · simp [step, below, newline]

section Newline

variable {rest : List Char} (others : List Char)

theorem any_head?_append_newline {holds : Char → Bool} (newline : holds '\n' = false)
    (stops : rest.head?.any holds = false) :
    (rest ++ '\n' :: others).head?.any holds = false := by
  cases rest with
  | nil => exact newline
  | cons next behind => exact stops

theorem IsWord.append_newline {word : List Char} (isWord : IsWord word rest) :
    IsWord word (rest ++ '\n' :: others) :=
  { isWord with longest := any_head?_append_newline others (by decide) isWord.longest }

theorem IsLexeme.append_newline {kind : TokenKind} {text : List Char}
    (isLexeme : IsLexeme kind text rest) : IsLexeme kind text (rest ++ '\n' :: others) := by
  cases isLexeme with
  | symbol symbol noComment =>
      refine .symbol symbol (fun slash => ?_)
      have noSlash := noComment slash
      cases rest with
      | nil => simp
      | cons next behind => exact noSlash
  | builtin word => exact .builtin (word.append_newline others)
  | name word noFunction => exact .name (word.append_newline others) noFunction
  | number complete clear =>
      exact .number complete (any_head?_append_newline others (by decide) clear)

/-- A comment that reaches to the end of a text reaches to the newline behind it. -/
theorem IsGap.append_newline {gap : List Char} (isGap : IsGap gap rest) :
    IsGap gap (rest ++ '\n' :: others) := by
  cases isGap with
  | blanks blank => exact .blanks blank
  | comment blank oneLine lineEnds =>
      refine .comment blank oneLine (Or.inr ?_)
      rcases lineEnds with rfl | newline
      · rfl
      · rw [List.head?_append, newline]
        rfl

theorem ArePieces.append_newline {pieces : List Piece} (arePieces : ArePieces pieces rest) :
    ArePieces pieces (rest ++ '\n' :: others) := by
  induction arePieces with
  | none rest => exact .none _
  | more gap lexeme more ih =>
      have gap := gap.append_newline others
      have lexeme := lexeme.append_newline others
      rw [List.append_assoc, List.append_assoc] at gap
      rw [List.append_assoc] at lexeme
      exact .more gap lexeme ih

end Newline

namespace Piece

theorem sources_append (first second : List Piece) :
    sources (first ++ second) = sources first ++ sources second :=
  List.flatMap_append

theorem tokens_append (passed : List Char) (first second : List Piece) :
    tokens passed (first ++ second) =
      tokens passed first ++ tokens (passed ++ sources first) second := by
  induction first generalizing passed with
  | nil => simp [tokens, sources]
  | cons piece others ih => simp [tokens, sources, ih]

theorem tokens_below (above passed : List Char) (pieces : List Piece) :
    tokens (above ++ '\n' :: passed) pieces =
      (tokens passed pieces).map (Token.moved (.below (above.count '\n' + 1))) := by
  induction pieces generalizing passed with
  | nil => rfl
  | cons piece others ih =>
      have later := ih (passed ++ piece.gap ++ piece.text)
      have positionEq := Position.behind_below above (passed ++ piece.gap)
      simp only [List.append_assoc] at later positionEq
      simp [tokens, Token.moved, later, positionEq]

/-- The newline between two texts, behind the last gap of the first one. -/
def newline (gap : List Char) : Piece :=
  ⟨gap, .separator, ['\n']⟩

end Piece

theorem ArePieces.append {first second : List Piece} {rest : List Char}
    (before : ArePieces first (Piece.sources second ++ rest)) (behind : ArePieces second rest) :
    ArePieces (first ++ second) rest := by
  induction first with
  | nil => exact behind
  | cons piece others ih =>
      cases before with
      | more gap lexeme more =>
          have sourcesEq : Piece.sources others ++ (Piece.sources second ++ rest) =
              Piece.sources (others ++ second) ++ rest := by
            rw [Piece.sources_append, List.append_assoc]
          rw [sourcesEq] at gap lexeme
          exact .more gap lexeme (ih more)

/-- A text that is read to its end, and below it another one that is read up to a rest. -/
theorem IsReadAs.below {first second gap lastGap rest : List Char} {pieces later : List Piece}
    (firstRead : IsReadAs first pieces gap []) (secondRead : IsReadAs second later lastGap rest) :
    IsReadAs (first ++ '\n' :: second) (pieces ++ Piece.newline gap :: later) lastGap rest where
  whole := by
    rw [firstRead.whole, secondRead.whole]
    simp [Piece.sources, Piece.newline]
  pieces := by
    have before := firstRead.pieces.append_newline second
    have gapEnds := firstRead.gap.append_newline second
    rw [secondRead.whole] at before gapEnds
    refine ArePieces.append ?_ (.more gapEnds ?_ secondRead.pieces)
    · simpa [Piece.sources, Piece.newline] using before
    · have symbol : ('\n', TokenKind.separator) ∈ TokenKind.symbols := by decide
      exact .symbol symbol (fun same => absurd same (by decide))
  gap := secondRead.gap

namespace TokenStream

/-- The tokens of a text, a separator, and the tokens of a text below it. -/
def followedBy (first second : TokenStream) : TokenStream :=
  ⟨first.tokens ++ ⟨.separator, first.stop⟩ :: second.tokens, second.stop⟩

variable {first second : String} {stream : TokenStream}

theorem exists_isReadAs_of_ofText (read : ofText first = .ok stream) :
    ∃ pieces gap, IsReadAs first.toList pieces gap [] ∧
      stream = ⟨Piece.tokens [] pieces, .behind first.toList⟩ := by
  obtain ⟨pieces, gap, rest, isRead, ends⟩ := exists_isReadAs first.toList
  rcases ends with rfl | ⟨cause, refused⟩
  · rw [ofText_of_isReadAs isRead] at read
    cases read
    exact ⟨pieces, gap, isRead, rfl⟩
  · rw [ofText_of_isRefused isRead refused] at read
    cases read

/-- Reading goes on below a text as if nothing stood above. -/
theorem ofText_joinedText (read : ofText first = .ok stream) (second : String) :
    ofText (joinedText first second) =
      match ofText second with
      | .ok later => .ok (stream.followedBy (later.moved (.below (linesAbove first))))
      | .error fault => .error (fault.moved (.below (linesAbove first))) := by
  obtain ⟨pieces, gap, firstRead, rfl⟩ := exists_isReadAs_of_ofText read
  obtain ⟨later, lastGap, rest, secondRead, ends⟩ := exists_isReadAs second.toList
  have wholeRead := firstRead.below secondRead
  rw [← toList_joinedText] at wholeRead
  have firstWhole := firstRead.whole
  rw [List.append_nil] at firstWhole
  rcases ends with rfl | ⟨cause, refused⟩
  · have laterEq := Piece.tokens_below first.toList [] later
    rw [ofText_of_isReadAs wholeRead, ofText_of_isReadAs secondRead]
    simp only [followedBy, moved, linesAbove, toList_joinedText, Position.behind_below,
      Piece.tokens_append, Piece.tokens, Piece.newline, List.nil_append, ← firstWhole, laterEq]
  · have positionEq := Position.behind_below first.toList (Piece.sources later ++ lastGap)
    have passedEq : Piece.sources (pieces ++ Piece.newline gap :: later) ++ lastGap =
        first.toList ++ '\n' :: (Piece.sources later ++ lastGap) := by
      rw [firstWhole, Piece.sources_append]
      simp [Piece.sources, Piece.newline]
    rw [ofText_of_isRefused wholeRead refused, ofText_of_isRefused secondRead refused, passedEq,
      positionEq]
    rfl

end TokenStream

end SignalPatch
