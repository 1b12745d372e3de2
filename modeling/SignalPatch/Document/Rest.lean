import SignalPatch.Document.Character

/-!
# What is left of a text

A reader takes characters from the front of a text and has to know where it
stands: how many bytes it has taken, and the line and column it has reached.
-/

namespace SignalPatch

namespace Document

/-- A place in a text; lines and columns count from zero. -/
structure Place where
  index : Nat
  line : Nat
  /-- The number of characters before it on its line. -/
  column : Nat
deriving DecidableEq

namespace Place

def start : Place :=
  ⟨0, 0, 0⟩

def behind (place : Place) (character : Char) : Place :=
  ⟨place.index + character.utf8Size, place.line, place.column + 1⟩

/-- The place behind so many characters of the same line, each of one byte. -/
def right (place : Place) (count : Nat) : Place :=
  ⟨place.index + count, place.line, place.column + count⟩

/-- The start of the next line, behind a break of so many bytes. -/
def below (place : Place) (count : Nat) : Place :=
  ⟨place.index + count, place.line + 1, 0⟩

end Place

/-- The characters that are left, and where the first of them stands. -/
structure Rest where
  place : Place
  characters : List Char

namespace Rest

def ofText (characters : List Char) : Rest :=
  ⟨.start, characters⟩

/-- What is left behind so many characters of a line. -/
def skip (rest : Rest) (count : Nat) : Rest :=
  ⟨(rest.characters.take count).foldl Place.behind rest.place, rest.characters.drop count⟩

/-- The characters of a kind at the front, and what is left behind them. -/
def span (kind : Char → Bool) (rest : Rest) : List Char × Rest :=
  let found := rest.characters.takeWhile kind
  (found, rest.skip found.length)

def skipBlanks (rest : Rest) : Rest :=
  (rest.span isBlank).2

def skipComment (rest : Rest) : Rest :=
  match rest.characters with
  | '#' :: _ => (rest.span (fun character => !isBreak character)).2
  | _ => rest

def skipBreak (rest : Rest) : Rest :=
  match rest.characters with
  | '\r' :: '\n' :: characters => ⟨rest.place.below 2, characters⟩
  | character :: characters =>
      if isBreak character then ⟨rest.place.below character.utf8Size, characters⟩ else rest
  | [] => rest

/-- The next line, if nothing but a comment is left of this one. -/
def nextLine? (rest : Rest) : Option Rest :=
  let rest := rest.skipBlanks.skipComment
  if endsLine rest.characters then some rest.skipBreak else none

def startsWith (rest : Rest) (character : Char) : Bool :=
  rest.characters.head? == some character

end Rest

/--
What is left of a text before its next token: spaces, comments and breaks are
passed over.  Tabs are passed over inside of brackets, and where no key may
start.  A break outside of brackets allows a key.  One byte order mark may stand
before a line.
-/
def approach (bracketed : Bool) : (keyAllowed comment : Bool) → Place → List Char → Bool × Rest
  | keyAllowed, _, place, '\r' :: '\n' :: characters =>
      approach bracketed (keyAllowed || !bracketed) false (place.below 2) characters
  | keyAllowed, comment, place, character :: characters =>
      if isBreak character then
        approach bracketed (keyAllowed || !bracketed) false (place.below character.utf8Size)
          characters
      else if comment || character == ' ' ||
          (character == '\ufeff' && place.column == 0) ||
          (character == '\t' && (bracketed || !keyAllowed)) then
        approach bracketed keyAllowed comment (place.behind character) characters
      else if character == '#' then
        approach bracketed keyAllowed true (place.right 1) characters
      else (keyAllowed, ⟨place, character :: characters⟩)
  | keyAllowed, _, place, [] => (keyAllowed, ⟨place, []⟩)

end Document

end SignalPatch
