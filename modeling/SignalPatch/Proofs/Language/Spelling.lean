import SignalPatch.Proofs.Language.JoinedTokens
import SignalPatch.Proofs.Language.Printer

/-!
# Spelled tokens

Texts that are taken apart into given tokens, and how they are put together.
-/

namespace SignalPatch

/-- Nothing that must not be behind a word or a numeral. -/
def IsClear (rest : List Char) : Prop :=
  rest.head?.any isStray = false

theorem IsWord.of_isClear {word rest : List Char} (isWord : IsWord word []) (clear : IsClear rest) :
    IsWord word rest where
  ne_nil := isWord.ne_nil
  noDigit := isWord.noDigit
  inside := isWord.inside
  longest := by
    cases rest with
    | nil => rfl
    | cons next others => exact eq_false_of_imp Lexeme.isStray_of_isWordPart clear

theorem Builtin.isIdentifier_name (function : Builtin) : IsIdentifier function.name := by
  cases function <;> exact ⟨by decide, by decide, List.all_eq_true.mp (by decide), rfl⟩

theorem IsGap.cons_blank {gap rest : List Char} (isGap : IsGap gap rest) :
    IsGap (' ' :: gap) rest := by
  have withBlank : ∀ {blanks : List Char}, (∀ character ∈ blanks, isGapCharacter character = true) →
      ∀ character ∈ ' ' :: blanks, isGapCharacter character = true := by
    intro blanks blank
    exact List.forall_mem_cons.mpr ⟨rfl, blank⟩
  cases isGap with
  | blanks blank => exact .blanks (withBlank blank)
  | comment blank oneLine lineEnds => exact .comment (withBlank blank) oneLine lineEnds

/-- In front of a rest a text is taken apart into lexemes of these kinds. -/
def IsSpelling (text : List Char) (kinds : List TokenKind) (rest : List Char) : Prop :=
  ∃ pieces, Piece.sources pieces = text ∧ pieces.map Piece.kind = kinds ∧ ArePieces pieces rest

theorem IsLexeme.isSpelling {kind : TokenKind} {text rest : List Char}
    (isLexeme : IsLexeme kind text rest) : IsSpelling text [kind] rest := by
  refine ⟨[⟨[], kind, text⟩], by simp [Piece.sources], rfl, ?_⟩
  exact .more (.blanks (List.forall_mem_nil _)) isLexeme (.none rest)

namespace IsSpelling

variable {first second text rest : List Char} {kinds others : List TokenKind}

theorem append (before : IsSpelling first kinds (second ++ rest))
    (behind : IsSpelling second others rest) :
    IsSpelling (first ++ second) (kinds ++ others) rest := by
  obtain ⟨pieces, rfl, rfl, arePieces⟩ := before
  obtain ⟨later, rfl, rfl, laterPieces⟩ := behind
  refine ⟨pieces ++ later, Piece.sources_append _ _, List.map_append, ?_⟩
  exact arePieces.append laterPieces

theorem symbol {character : Char} {kind : TokenKind}
    (member : (character, kind) ∈ TokenKind.symbols)
    (noComment : character = '/' → (text ++ rest).head? ≠ some '/')
    (spelling : IsSpelling text kinds rest) :
    IsSpelling (character :: text) (kind :: kinds) rest := by
  have first : IsLexeme kind [character] (text ++ rest) := .symbol member noComment
  exact first.isSpelling.append spelling

theorem blank (spelling : IsSpelling text kinds rest) (nonempty : kinds ≠ []) :
    IsSpelling (' ' :: text) kinds rest := by
  obtain ⟨pieces, rfl, rfl, arePieces⟩ := spelling
  cases arePieces with
  | none => exact absurd rfl nonempty
  | @more piece others _ gap lexeme more =>
      refine ⟨⟨' ' :: piece.gap, piece.kind, piece.text⟩ :: others, rfl, rfl, ?_⟩
      exact .more gap.cons_blank lexeme more

end IsSpelling

/-- In front of every rest that may be behind a word a text is taken apart into these kinds. -/
def Spells (text : List Char) (kinds : List TokenKind) : Prop :=
  ∀ rest, IsClear rest → IsSpelling text kinds rest

namespace Spells

variable {text left right : List Char} {kinds leftKinds rightKinds : List TokenKind}

theorem parentheses (spells : Spells text kinds) :
    Spells ('(' :: (text ++ [')']))
      (.openParenthesis :: (kinds ++ [.closeParenthesis])) := by
  intro rest _
  have opening : ('(', TokenKind.openParenthesis) ∈ TokenKind.symbols := by decide
  have closing : (')', TokenKind.closeParenthesis) ∈ TokenKind.symbols := by decide
  have last : IsLexeme .closeParenthesis [')'] rest := .symbol closing nofun
  have inside : IsClear ([')'] ++ rest) := rfl
  exact ((spells _ inside).append last.isSpelling).symbol opening nofun

/-- A symbol with a blank on either side. -/
theorem operation {character : Char} {kind : TokenKind}
    (member : (character, kind) ∈ TokenKind.symbols) (leftSpells : Spells left leftKinds)
    (rightSpells : Spells right rightKinds) (nonempty : rightKinds ≠ []) :
    Spells (left ++ ' ' :: character :: ' ' :: right) (leftKinds ++ kind :: rightKinds) := by
  intro rest clear
  have operand := (rightSpells rest clear).blank nonempty
  have noComment : character = '/' → ((' ' :: right) ++ rest).head? ≠ some '/' := by simp
  have behind := (operand.symbol member noComment).blank (List.cons_ne_nil _ _)
  have front : IsClear ((' ' :: character :: ' ' :: right) ++ rest) := rfl
  exact (leftSpells _ front).append behind

/-- A symbol behind which there need not be a blank. -/
theorem joined {character : Char} {kind : TokenKind}
    (member : (character, kind) ∈ TokenKind.symbols) (noSlash : character ≠ '/')
    (leftSpells : Spells left leftKinds) (rightSpells : Spells right rightKinds) :
    Spells (left ++ character :: right) (leftKinds ++ kind :: rightKinds) := by
  intro rest clear
  have front : IsClear ((character :: right) ++ rest) := (Lexeme.class_of_symbol member).2
  have behind := (rightSpells rest clear).symbol member (fun slash => absurd slash noSlash)
  exact (leftSpells _ front).append behind

end Spells

end SignalPatch
