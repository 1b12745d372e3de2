import SignalPatch.Document.Name

/-!
# Scalars of lines

A literal or a folded scalar is written on lines of its own, which are indented
alike.  In a literal one all breaks are kept.  In a folded one a break between
two lines that start with no blank is a gap between words.  A header says what
becomes of the breaks at the end, and may say how far the lines are indented.
-/

namespace SignalPatch

namespace Document

/-- What becomes of the breaks at the end of a scalar of lines. -/
inductive Chomping where
  | strip
  | clip
  | keep
deriving DecidableEq

/-- The header of a scalar of lines. -/
structure LinesHeader where
  chomping : Chomping
  /-- How much further the lines are indented than what is around them, if the header says so. -/
  indentation : Option Nat

def chomping? : Char → Option Chomping
  | '+' => some .keep
  | '-' => some .strip
  | _ => none

def indentation? (digit : Char) : Option Nat :=
  if digit.isDigit then some (digit.toNat - 48) else none

/-- A sign at the front of a header, if there is one. -/
def readChomping (rest : Rest) : Option Chomping × Rest :=
  match rest.characters.head?.bind chomping? with
  | some chomping => (some chomping, rest.skip 1)
  | none => (none, rest)

/-- A digit at the front of a header, if there is one. -/
def readIndentation (rest : Rest) : Option Nat × Rest :=
  match rest.characters.head?.bind indentation? with
  | some indentation => (some indentation, rest.skip 1)
  | none => (none, rest)

/-- The header behind the mark of a scalar of lines, up to the next line. -/
def readHeader (rest : Rest) : Option (LinesHeader × Rest) := do
  let (sign, rest) := readChomping rest
  let (indentation, rest) := readIndentation rest
  let (chomping, rest) := if sign.isSome then (sign, rest) else readChomping rest
  if indentation = some 0 then none
  else return (⟨chomping.getD .clip, indentation⟩, ← rest.nextLine?)

/--
The furthest column among the lines up to the first that is not blank, given the
furthest one so far.  There is none if a tab stands among their spaces.
-/
def furthest? : (furthest column : Nat) → List Char → Option Nat
  | furthest, column, character :: characters =>
      if character == ' ' then furthest? furthest (column + 1) characters
      else if character == '\t' then none
      else if isBreak character then furthest? (max furthest column) 0 characters
      else some (max furthest column)
  | furthest, column, [] => some (max furthest column)

/-- The column of the lines, given the column of what is around them if there is any. -/
def linesColumn? (around : Option Nat) (header : LinesHeader) (rest : Rest) : Option Nat :=
  match header.indentation with
  | some indentation => some (around.getD 0 + indentation)
  | none =>
      (furthest? 0 rest.place.column rest.characters).map (fun furthest =>
        max (max furthest (around.elim 0 (· + 1))) 1)

/-- A scalar of lines of which a part is read. -/
structure LinesText where
  /-- The text so far in reverse. -/
  before : List Char
  ending : Option Char
  blankLines : List Char
  startsBlank : Bool

namespace LinesText

def empty : LinesText :=
  ⟨[], none, [], false⟩

/-- What stands before a new line, in reverse; the line starts with the character given. -/
def joined (folded : Bool) (lines : LinesText) (character : Char) : List Char :=
  if folded && lines.ending == some '\n' && !lines.startsBlank && !isBlank character then
    if lines.blankLines.isEmpty then ' ' :: lines.before
    else lines.blankLines ++ lines.before
  else lines.blankLines ++ (lines.ending.toList ++ lines.before)

def startLine (folded : Bool) (lines : LinesText) (character : Char) : LinesText :=
  ⟨character :: lines.joined folded character, none, [], isBlank character⟩

def add (lines : LinesText) (character : Char) : LinesText :=
  { lines with before := character :: lines.before }

/-- End the line, or read a blank one. -/
def endLine (inLine : Bool) (lines : LinesText) (character : Char) : LinesText :=
  if inLine then { lines with ending := some (breakText character) }
  else { lines with blankLines := breakText character :: lines.blankLines }

def chomped (chomping : Chomping) (lines : LinesText) : List Char :=
  let clipped := lines.ending.toList ++ lines.before
  match chomping with
  | .strip => lines.before.reverse
  | .clip => clipped.reverse
  | .keep => (lines.blankLines ++ clipped).reverse

/-- The lines at a column, behind those that are read. -/
def read (folded : Bool) (column : Nat) :
    (inLine : Bool) → LinesText → Place → List Char → Option (LinesText × Rest)
  | inLine, lines, place, '\r' :: '\n' :: characters =>
      read folded column false (lines.endLine inLine '\n') (place.below 2) characters
  | inLine, lines, place, character :: characters =>
      if isBreak character then
        read folded column false (lines.endLine inLine character)
          (place.below character.utf8Size) characters
      else if inLine then
        read folded column true (lines.add character) (place.behind character) characters
      else if place.column < column && character == ' ' then
        read folded column false lines (place.right 1) characters
      else if place.column < column && character == '\t' then none
      else if place.column = column then
        read folded column true (lines.startLine folded character) (place.behind character)
          characters
      else some (lines, ⟨place, character :: characters⟩)
  | _, lines, place, [] => some (lines, ⟨place, []⟩)

end LinesText

/-- The scalar of lines behind its mark, given the column of what is around it. -/
def readLines (style : ScalarStyle) (around : Option Nat) (rest : Rest) :
    Option (List Char × Rest) := do
  let (header, rest) ← readHeader rest
  let column ← linesColumn? around header rest
  let (lines, rest) ←
    LinesText.read (style == .folded) column false .empty rest.place rest.characters
  return (lines.chomped header.chomping, rest)

end Document

end SignalPatch
