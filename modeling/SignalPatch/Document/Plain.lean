import SignalPatch.Document.Gap
import SignalPatch.Document.Rest

/-!
# Plain scalars

A plain scalar ends where a colon stands apart, at a comment, at a line that is
not indented enough, and inside of brackets at a mark of a bracket.
-/

namespace SignalPatch

namespace Document

/-- Where a plain scalar stands. -/
structure PlainContext where
  bracketed : Bool
  /-- The column that the lines of the scalar must reach. -/
  least : Nat

/-- A plain scalar: its text, whether breaks were read behind it, and what is left. -/
structure PlainScalar where
  text : List Char
  broken : Bool
  rest : Rest

namespace PlainContext

/-- Whether a plain scalar starts at the front of a text. -/
def starts (bracketed : Bool) : List Char → Bool
  | [] => false
  | '-' :: rest => !rest.head?.any isBlank
  | '?' :: rest => !bracketed && !startsApart rest
  | ':' :: rest => !bracketed && !startsApart rest
  | character :: _ => !isBlank character && !isBreak character && !isIndicator character

def stopsBehind (context : PlainContext) (gap : Gap) (place : Place) (text : List Char) : Bool :=
  gap != .none &&
    ((!context.bracketed && place.column < context.least) ||
      (place.column == 0 && startsWithMarker text) ||
      text.head? == some '#')

/-- Whether a colon is joined to a mark that nothing may be joined to. -/
def isBrokenColon (context : PlainContext) (character : Char) (rest : List Char) : Bool :=
  context.bracketed && character == ':' &&
    rest.head?.any (fun next => isBracketMark next || next == '?')

def endsBefore (context : PlainContext) (character : Char) (rest : List Char) : Bool :=
  (character == ':' && startsApart rest) || (context.bracketed && isBracketMark character)

/-- Whether a tab stands where the next line must be indented. -/
def isBadTab (context : PlainContext) (gap : Gap) (place : Place) (character : Char) : Bool :=
  gap.isBroken && character == '\t' && place.column < context.least

/-- The plain scalar at the front of a text, given its text so far in reverse and a gap. -/
def read (context : PlainContext) :
    (before : List Char) → Gap → Place → List Char → Option PlainScalar
  | before, gap, place, '\r' :: '\n' :: characters =>
      read context before (gap.addBreak '\n') (place.below 2) characters
  | before, gap, place, character :: characters =>
      if isBreak character then
        read context before (gap.addBreak character) (place.below character.utf8Size) characters
      else if isBlank character then
        if context.isBadTab gap place character then none
        else read context before (gap.addBlank character) (place.right 1) characters
      else if context.stopsBehind gap place (character :: characters) then
        some ⟨before.reverse, gap.isBroken, ⟨place, character :: characters⟩⟩
      else if context.isBrokenColon character characters then none
      else if context.endsBefore character characters then
        some ⟨before.reverse, gap.isBroken, ⟨place, character :: characters⟩⟩
      else
        read context (character :: (gap.text ++ before)) .none (place.behind character) characters
  | before, gap, place, [] => some ⟨before.reverse, gap.isBroken, ⟨place, []⟩⟩

end PlainContext

end Document

end SignalPatch
