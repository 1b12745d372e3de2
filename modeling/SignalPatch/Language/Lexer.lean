import SignalPatch.Decimal.Numeral
import SignalPatch.Language.Fault

/-!
# Reading tokens

A text is a sequence of lexemes with gaps of blanks and comments between them.
Each lexeme is the longest one that starts where it starts.  The first
character that starts none, or the first malformed numeral, is a fault.
-/

namespace SignalPatch

def isBlank (character : Char) : Bool :=
  character == ' ' || character == '\t' || character == '\r'

def isWordCharacter (character : Char) : Bool :=
  character.isAlphanum || character == '_'

/-- The comment at the start of a text, up to the end of its line, or nothing. -/
def leadingComment : List Char → List Char
  | '/' :: '/' :: others => '/' :: '/' :: others.takeWhile (fun character => character != '\n')
  | _ => []

/-- The blanks and then the comment at the start of a text. -/
def leadingGap (characters : List Char) : List Char :=
  characters.takeWhile isBlank ++ leadingComment (characters.dropWhile isBlank)

/-- A token with the characters that write it and the characters behind it. -/
structure Lexeme where
  kind : TokenKind
  text : List Char
  rest : List Char

namespace Lexeme

/-- The longest name or function name at the start of a text. -/
def readWord (characters : List Char) : Lexeme :=
  let word := characters.takeWhile isWordCharacter
  ⟨.ofWord (String.ofList word), word, characters.dropWhile isWordCharacter⟩

/-- The character behind a numeral that makes it malformed, if there is one. -/
def strayAfter (rest : List Char) : Option Char :=
  rest.head?.filter (fun character => character == '.' || isWordCharacter character)

/-- The longest numeral at the start of a text. -/
def readNumber (characters : List Char) : Except Cause Lexeme :=
  let (numeral, rest) := Numeral.read characters
  if numeral.lacksExponentDigits then
    .error (.missingExponentDigits numeral.text)
  else
    match strayAfter rest with
    | some character => .error (.malformedNumber (numeral.text.push character))
    | none => .ok ⟨.number numeral.value.toSample, numeral.source, rest⟩

def symbol? : Char → Option TokenKind
  | '\n' | ';' => some .separator
  | '+' => some .plus
  | '-' => some .minus
  | '*' => some .star
  | '/' => some .slash
  | '^' => some .caret
  | '%' => some .percent
  | '(' => some .openParenthesis
  | ')' => some .closeParenthesis
  | ',' => some .comma
  | '=' => some .equals
  | _ => none

def startsNumber (first : Char) (others : List Char) : Bool :=
  first.isDigit || (first == '.' && others.head?.any Char.isDigit)

def startsWord (first : Char) : Bool :=
  first.isAlpha || first == '_'

/-- The longest lexeme at the start of a nonempty text. -/
def read (first : Char) (others : List Char) : Except Cause Lexeme :=
  match symbol? first with
  | some kind => .ok ⟨kind, [first], others⟩
  | none =>
      if startsNumber first others then readNumber (first :: others)
      else if startsWord first then .ok (readWord (first :: others))
      else .error (.unexpectedCharacter first)

theorem text_append_rest {first : Char} {others : List Char} {lexeme : Lexeme}
    (success : read first others = .ok lexeme) :
    lexeme.text ++ lexeme.rest = first :: others := by
  unfold read at success
  split at success
  · simp only [Except.ok.injEq] at success
    subst success
    rfl
  · split at success
    · unfold readNumber at success
      split at success
      rename_i numeral rest same
      split at success
      · contradiction
      · split at success
        · contradiction
        · simp only [Except.ok.injEq] at success
          subst success
          have whole := Numeral.source_append_rest (first :: others)
          rw [same] at whole
          exact whole
    · split at success
      · simp only [Except.ok.injEq] at success
        subst success
        simp [readWord]
      · contradiction

theorem text_ne_nil {first : Char} {others : List Char} {lexeme : Lexeme}
    (success : read first others = .ok lexeme) : lexeme.text ≠ [] := by
  unfold read at success
  split at success
  · simp only [Except.ok.injEq] at success
    subst success
    simp
  · split at success
    · rename_i starts
      unfold readNumber at success
      split at success
      rename_i numeral rest same
      split at success
      · contradiction
      · split at success
        · contradiction
        · simp only [Except.ok.injEq] at success
          subst success
          have starts : first.isDigit = true ∨ first = '.' := by
            simp only [startsNumber, Bool.or_eq_true, Bool.and_eq_true, beq_iff_eq] at starts
            exact starts.imp id And.left
          have whole := Numeral.source_ne_nil others starts
          rw [same] at whole
          exact whole
    · split at success
      · rename_i starts
        simp only [Except.ok.injEq] at success
        subst success
        have word : isWordCharacter first = true := by
          simp only [startsWord, Bool.or_eq_true] at starts
          simp only [isWordCharacter, Char.isAlphanum, Bool.or_eq_true]
          exact starts.imp Or.inl id
        simp [readWord, word]
      · contradiction

theorem length_rest_lt {first : Char} {others : List Char} {lexeme : Lexeme}
    (success : read first others = .ok lexeme) :
    lexeme.rest.length < (first :: others).length := by
  have whole := congrArg List.length (text_append_rest success)
  have nonempty := List.length_pos_iff.mpr (text_ne_nil success)
  rw [List.length_append] at whole
  omega

end Lexeme

namespace TokenStream

/-- Read the tokens of a text that starts at a position, behind those read before. -/
def readFrom (characters : List Char) (position : Position) (before : Array Token) :
    Except Fault TokenStream :=
  let gap := leadingGap characters
  let start := position.advance gap
  match same : characters.drop gap.length with
  | [] => .ok ⟨before.toList, start⟩
  | first :: others =>
      match success : Lexeme.read first others with
      | .error cause => .error ⟨cause, start⟩
      | .ok lexeme =>
          have : lexeme.rest.length < characters.length := by
            have shorter := Lexeme.length_rest_lt success
            rw [← same, List.length_drop] at shorter
            omega
          readFrom lexeme.rest (start.advance lexeme.text) (before.push ⟨lexeme.kind, start⟩)
termination_by characters.length

def ofText (text : String) : Except Fault TokenStream :=
  readFrom text.toList Position.start #[]

end TokenStream

end SignalPatch
