/-!
# Tokens of documents

A document is read as a list of tokens.  Blocks, which the text shows by columns
alone, begin and end with tokens of their own.
-/

namespace SignalPatch

namespace Document

/-- How a scalar is written. -/
inductive ScalarStyle where
  | plain
  /-- Between quotation marks of either kind. -/
  | quoted
  | literal
  /-- As lines of its own that are joined. -/
  | folded
deriving DecidableEq

abbrev TagText :=
  List UInt8

/-- The parts of a document. -/
inductive Token where
  /-- A directive that says which version of the format is used. -/
  | version (major minor : Nat)
  /-- A directive that says what a handle stands for. -/
  | handle (name meaning : TagText)
  | documentStart
  | documentEnd
  | blockSequence
  | blockMapping
  | blockEnd
  | openSequence
  | closeSequence
  | openMapping
  | closeMapping
  | item
  | comma
  | key
  | value
  | alias (name : List Char)
  | anchor (name : List Char)
  | tag (handle suffix : TagText)
  | scalar (style : ScalarStyle) (text : List Char)
deriving DecidableEq

end Document

end SignalPatch
