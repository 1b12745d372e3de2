import SignalPatch.Document.Character

/-!
# Gaps between words

Between two words of a scalar stand blanks, or breaks with blanks around them.
Blanks on one line are kept.  Of one break a space is left; of several all but
the first are left.
-/

namespace SignalPatch

namespace Document

/-- What stands between two words. -/
inductive Gap where
  | none
  | blanks (reversed : List Char)
  /-- Breaks: the first one, which may be hidden, and the others, the last one first. -/
  | breaks (first : Option Char) (reversed : List Char)
deriving DecidableEq

namespace Gap

def addBlank (character : Char) : Gap → Gap
  | none => blanks [character]
  | blanks reversed => blanks (character :: reversed)
  | breaks first reversed => breaks first reversed

def addBreak (character : Char) : Gap → Gap
  | breaks first reversed => breaks first (breakText character :: reversed)
  | _ => breaks (some (breakText character)) []

def isBroken : Gap → Bool
  | breaks .. => true
  | _ => false

/-- What is left of a gap, in reverse. -/
def text : Gap → List Char
  | none => []
  | blanks reversed => reversed
  | breaks (some '\n') [] => [' ']
  | breaks (some '\n') reversed => reversed
  | breaks first reversed => reversed ++ first.toList

end Gap

end Document

end SignalPatch
