import SignalPatch.Document.Gap
import SignalPatch.Document.Rest

/-!
# Quoted scalars

Between single quotation marks a doubled mark is one character.  Between double
ones a backslash begins an escape, which may hide a break.  Lines are folded in
both.
-/

namespace SignalPatch

namespace Document

/-- How many digits give the code of a character behind a letter. -/
def codeLength? : Char → Option Nat
  | 'x' => some 2
  | 'u' => some 4
  | 'U' => some 8
  | _ => none

def escaped? : Char → Option Char
  | '0' => some '\x00'
  | 'a' => some '\x07'
  | 'b' => some '\x08'
  | 't' => some '\t'
  | '\t' => some '\t'
  | 'n' => some '\n'
  | 'v' => some '\x0b'
  | 'f' => some '\x0c'
  | 'r' => some '\r'
  | 'e' => some '\x1b'
  | ' ' => some ' '
  | '"' => some '"'
  | '/' => some '/'
  | '\\' => some '\\'
  | 'N' => some '\u0085'
  | '_' => some '\u00a0'
  | 'L' => some '\u2028'
  | 'P' => some '\u2029'
  | _ => none

/-- The character that is written behind a backslash, and the number of its digits. -/
def escape? (letter : Char) (rest : List Char) : Option (Char × Nat) :=
  match codeLength? letter with
  | none => (escaped? letter).map (fun character => (character, 0))
  | some count =>
      let digits := rest.take count
      match if digits.length = count then code? digits else none with
      | none => none
      | some code => if code.isValidChar then some (Char.ofNat code, count) else none

def isMarked (place : Place) (text : List Char) : Bool :=
  place.column == 0 && startsWithMarker text

/-- What a reader of quoted scalars finds: a text, and what is left behind the mark. -/
abbrev Quoted :=
  Option (List Char × Rest)

/-- The rest of a scalar in single quotation marks, given its text so far in reverse and a gap. -/
def readSingle : (before : List Char) → Gap → Place → List Char → Quoted
  | before, gap, place, '\x27' :: '\x27' :: characters =>
      readSingle ('\x27' :: (gap.text ++ before)) .none (place.right 2) characters
  | before, gap, place, '\x27' :: characters =>
      some ((gap.text ++ before).reverse, ⟨place.right 1, characters⟩)
  | before, gap, place, '\r' :: '\n' :: characters =>
      readSingle before (gap.addBreak '\n') (place.below 2) characters
  | before, gap, place, character :: characters =>
      if isBreak character then
        readSingle before (gap.addBreak character) (place.below character.utf8Size) characters
      else if isBlank character then
        readSingle before (gap.addBlank character) (place.right 1) characters
      else if isMarked place (character :: characters) then none
      else
        readSingle (character :: (gap.text ++ before)) .none (place.behind character) characters
  | _, _, _, [] => none

/-- The rest of a scalar in double quotation marks, given its text so far in reverse and a gap. -/
def readDouble (before : List Char) (gap : Gap) (place : Place) (characters : List Char) : Quoted :=
  match characters with
  | '"' :: characters => some ((gap.text ++ before).reverse, ⟨place.right 1, characters⟩)
  | '\\' :: '\r' :: '\n' :: characters =>
      readDouble (gap.text ++ before) (.breaks none []) (place.below 3) characters
  | '\\' :: letter :: characters =>
      if isBreak letter then
        readDouble (gap.text ++ before) (.breaks none []) (place.below (1 + letter.utf8Size))
          characters
      else
        match escape? letter characters with
        | none => none
        | some (character, count) =>
            readDouble (character :: (gap.text ++ before)) .none (place.right (2 + count))
              (characters.drop count)
  | '\r' :: '\n' :: characters =>
      readDouble before (gap.addBreak '\n') (place.below 2) characters
  | character :: characters =>
      if isBreak character then
        readDouble before (gap.addBreak character) (place.below character.utf8Size) characters
      else if isBlank character then
        readDouble before (gap.addBlank character) (place.right 1) characters
      else if isMarked place (character :: characters) then none
      else
        readDouble (character :: (gap.text ++ before)) .none (place.behind character) characters
  | [] => none
termination_by characters.length
decreasing_by all_goals simp only [List.length_cons, List.length_drop]; omega

end Document

end SignalPatch
