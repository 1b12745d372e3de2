/-!
# Characters of documents

Which characters a document may hold, which of them end a line, and which may
stand in names.
-/

namespace SignalPatch

namespace Document

def isAllowed (character : Char) : Bool :=
  let code := character.toNat
  code == 0x9 || code == 0xA || code == 0xD || (0x20 ≤ code && code ≤ 0x7E) || code == 0x85 ||
    (0xA0 ≤ code && code ≤ 0xFFFD) || 0x10000 ≤ code

def isBreak (character : Char) : Bool :=
  character == '\n' || character == '\r' || character == '\u0085' || character == '\u2028' ||
    character == '\u2029'

/-- What a break stands for in a scalar: separators of lines and paragraphs keep their kind. -/
def breakText (character : Char) : Char :=
  if character == '\u2028' || character == '\u2029' then character else '\n'

/-- Whether a character separates words of a line. -/
def isBlank (character : Char) : Bool :=
  character == ' ' || character == '\t'

/-- Whether a character may stand in the name of an anchor, a handle or a directive. -/
def isNameCharacter (character : Char) : Bool :=
  character.isAlphanum || character == '_' || character == '-'

def isBracketMark (character : Char) : Bool :=
  character == ',' || character == '[' || character == ']' || character == '\x7b' ||
    character == '\x7d'

/-- The characters that cannot begin a plain scalar, whatever follows them. -/
def isIndicator (character : Char) : Bool :=
  isBracketMark character || "#&*!|>'\"%@`".toList.contains character

def hexadecimal? (digit : Char) : Option Nat :=
  if digit.isDigit then some (digit.toNat - 48)
  else if 'a' ≤ digit && digit ≤ 'f' then some (digit.toNat - 87)
  else if 'A' ≤ digit && digit ≤ 'F' then some (digit.toNat - 55)
  else none

/-- The number that hexadecimal digits write. -/
def code? (digits : List Char) : Option Nat :=
  digits.foldlM (fun value digit => (hexadecimal? digit).map (fun amount => 16 * value + amount)) 0

/-- Whether a text is at its end or goes on with a break. -/
def endsLine : List Char → Bool
  | [] => true
  | character :: _ => isBreak character

/-- Whether a text is at its end or goes on with a blank or a break. -/
def startsApart : List Char → Bool
  | [] => true
  | character :: _ => isBlank character || isBreak character

def startsWithThree (mark : Char) : List Char → Bool
  | first :: second :: third :: rest =>
      first == mark && second == mark && third == mark && startsApart rest
  | _ => false

/-- Whether a text starts with what begins or ends a document at the start of a line. -/
def startsWithMarker (text : List Char) : Bool :=
  startsWithThree '-' text || startsWithThree '.' text

end Document

end SignalPatch
