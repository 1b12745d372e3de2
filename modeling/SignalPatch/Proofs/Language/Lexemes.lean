import Mathlib.Data.List.DropRight
import SignalPatch.Language.Lexer
import SignalPatch.Proofs.Decimal.LongestNumeral

/-!
# Lexemes

What a text of tokens looks like: lexemes with gaps of blanks and comments between
them.  A lexeme and a gap are described together with the characters behind them,
as these decide where the longest one ends.
-/

namespace SignalPatch

namespace Position

/-- The position behind some characters: after so many newlines, and in the line begun last. -/
def behind (before : List Char) : Position :=
  ⟨before.count '\n' + 1, (before.rtakeWhile (fun character => character != '\n')).length + 1⟩

theorem behind_concat (before : List Char) (character : Char) :
    behind (before ++ [character]) = (behind before).step character := by
  by_cases newline : character = '\n'
  · subst newline
    simp [behind, step]
  · simp [behind, step, newline]

theorem advance_behind (before characters : List Char) :
    (behind before).advance characters = behind (before ++ characters) := by
  induction characters generalizing before with
  | nil => rw [List.append_nil]; rfl
  | cons character others ih =>
      rw [advance, List.foldl_cons, ← behind_concat, ← advance, ih, List.append_assoc]
      rfl

end Position

/-- Whether a character is a space, a tab or a carriage return. -/
def isGapCharacter (character : Char) : Bool :=
  character = ' ' ∨ character = '\t' ∨ character = '\r'

/-- Whether a character is a letter or a digit of ASCII, or an underscore. -/
def isWordPart (character : Char) : Bool :=
  ('a' ≤ character ∧ character ≤ 'z') ∨ ('A' ≤ character ∧ character ≤ 'Z') ∨
    ('0' ≤ character ∧ character ≤ '9') ∨ character = '_'

/-- The blanks that are skipped are those of a gap. -/
theorem isBlank_eq : isBlank = isGapCharacter := by
  funext character
  simp [isBlank, isGapCharacter, Bool.or_assoc, Bool.decide_or, Bool.beq_eq_decide_eq]

/-- The characters that a word is read on with are those that can be part of one. -/
theorem isWordCharacter_eq : isWordCharacter = isWordPart := by
  funext character
  have isUpperEq : character.isUpper =
      decide ('A'.val ≤ character.val ∧ character.val ≤ 'Z'.val) := rfl
  have isLowerEq : character.isLower =
      (decide ('a'.val ≤ character.val) && decide (character.val ≤ 'z'.val)) := rfl
  have isDigitEq : character.isDigit =
      (decide ('0'.val ≤ character.val) && decide (character.val ≤ '9'.val)) := rfl
  have isAlphanumEq : character.isAlphanum =
      (character.isUpper || character.isLower || character.isDigit) := rfl
  rw [Bool.eq_iff_iff]
  simp only [isWordCharacter, isWordPart, isAlphanumEq, isUpperEq, isLowerEq, isDigitEq,
    Bool.or_eq_true, Bool.and_eq_true, decide_eq_true_eq, beq_iff_eq, Char.le_def]
  grind

/-- Blanks, and perhaps a comment behind them that reaches to the end of its line. -/
inductive IsGap : List Char → List Char → Prop
  | blanks {blanks rest : List Char}
      (blank : ∀ character ∈ blanks, isGapCharacter character = true) : IsGap blanks rest
  | comment {blanks comment rest : List Char}
      (blank : ∀ character ∈ blanks, isGapCharacter character = true) (oneLine : '\n' ∉ comment)
      (lineEnds : rest = [] ∨ rest.head? = some '\n') :
      IsGap (blanks ++ '/' :: '/' :: comment) rest

namespace Numeral

/-- Whether a numeral has all the digits that it needs. -/
structure Complete (numeral : Numeral) : Prop extends Begun numeral where
  digits_ne_nil : numeral.whole ++ numeral.fraction.getD [] ≠ []
  exponent_ne_nil : ∀ exponent ∈ numeral.exponent, exponent.digits ≠ []

end Numeral

/-- The tokens of a single character. -/
def TokenKind.symbols : List (Char × TokenKind) :=
  [('\n', separator), (';', separator), ('+', plus), ('-', minus), ('*', star), ('/', slash),
    ('^', caret), ('%', percent), ('(', openParenthesis), (')', closeParenthesis), (',', comma),
    ('=', equals)]

/-- Whether a character must not stand directly behind a numeral. -/
def isStray (character : Char) : Bool :=
  character == '.' || isWordPart character

/-- Whether characters are a word, and the longest one in front of a rest. -/
structure IsWord (word rest : List Char) : Prop where
  ne_nil : word ≠ []
  noDigit : word.head?.any Char.isDigit = false
  inside : ∀ character ∈ word, isWordPart character = true
  longest : rest.head?.any isWordPart = false

/-- A token, its lexeme and the characters behind it. -/
inductive IsLexeme : TokenKind → List Char → List Char → Prop
  | symbol {character : Char} {kind : TokenKind} {rest : List Char}
      (symbol : (character, kind) ∈ TokenKind.symbols)
      (noComment : character = '/' → rest.head? ≠ some '/') : IsLexeme kind [character] rest
  | builtin {function : Builtin} {rest : List Char} (word : IsWord function.name.toList rest) :
      IsLexeme (.builtin function) function.name.toList rest
  | name {name : String} {rest : List Char} (word : IsWord name.toList rest)
      (noFunction : ∀ function : Builtin, function.name ≠ name) :
      IsLexeme (.name name) name.toList rest
  | number {numeral : Numeral} {rest : List Char} (complete : numeral.Complete)
      (clear : rest.head?.any isStray = false) :
      IsLexeme (.number numeral.value.toSample) numeral.source rest

/-- Characters whose front is not the lexeme of any token, and why not. -/
inductive IsRefused : Cause → List Char → Prop
  | character {character : Char} {others : List Char} (noBlank : isGapCharacter character = false)
      (noSymbol : ∀ kind, (character, kind) ∉ TokenKind.symbols)
      (noWord : isWordPart character = false)
      (noNumeral : character = '.' → others.head?.any Char.isDigit = false) :
      IsRefused (.unexpectedCharacter character) (character :: others)
  | exponent {numeral : Numeral} {exponent : ExponentText} {rest : List Char}
      (begun : numeral.Begun) (digits_ne_nil : numeral.whole ++ numeral.fraction.getD [] ≠ [])
      (found : numeral.exponent = some exponent) (noDigits : exponent.digits = [])
      (longest : rest.head?.any numeral.continues = false) :
      IsRefused (.missingExponentDigits numeral.text) (numeral.source ++ rest)
  | stray {numeral : Numeral} {character : Char} {others : List Char}
      (complete : numeral.Complete) (longest : numeral.continues character = false)
      (stray : isStray character = true) :
      IsRefused (.malformedNumber (numeral.text.push character))
        (numeral.source ++ character :: others)

/-- A lexeme behind a gap, and the token that it writes. -/
structure Piece where
  gap : List Char
  kind : TokenKind
  text : List Char

namespace Piece

/-- The characters of pieces. -/
def sources (pieces : List Piece) : List Char :=
  pieces.flatMap (fun piece => piece.gap ++ piece.text)

/-- The tokens of pieces that stand behind some characters. -/
def tokens : List Char → List Piece → List Token
  | _, [] => []
  | before, piece :: others =>
      ⟨piece.kind, .behind (before ++ piece.gap)⟩ ::
        tokens (before ++ piece.gap ++ piece.text) others

end Piece

/-- Pieces in front of a rest, each a gap and the longest lexeme behind it. -/
inductive ArePieces : List Piece → List Char → Prop
  | none (rest : List Char) : ArePieces [] rest
  | more {piece : Piece} {others : List Piece} {rest : List Char}
      (gap : IsGap piece.gap (piece.text ++ (Piece.sources others ++ rest)))
      (lexeme : IsLexeme piece.kind piece.text (Piece.sources others ++ rest))
      (more : ArePieces others rest) : ArePieces (piece :: others) rest

/-- A text that is read as pieces up to a last gap, and the rest behind it. -/
structure IsReadAs (characters : List Char) (pieces : List Piece) (gap rest : List Char) :
    Prop where
  whole : characters = Piece.sources pieces ++ (gap ++ rest)
  pieces : ArePieces pieces (gap ++ rest)
  gap : IsGap gap rest

end SignalPatch
