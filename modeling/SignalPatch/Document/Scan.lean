import SignalPatch.Document.Lines
import SignalPatch.Document.Plain
import SignalPatch.Document.Quoted

/-!
# Scanning documents

A text becomes a list of tokens.  The column at which a block starts decides
where it ends.  Whether something is a key shows only at the colon behind it, so
the place of the last token that may have been one is kept.  A key must stand on
the line of its colon, and not too far in front of it.
-/

namespace SignalPatch

namespace Document

/-- A token that may turn out to be a key. -/
structure PossibleKey where
  /-- Whether it must be a key, as it starts at the column of its block. -/
  required : Bool
  number : Nat
  place : Place

/-- How many bytes a key and its colon may be apart. -/
def maxKeyLength : Nat :=
  1024

/-- The state of a scan. -/
structure Scan where
  rest : Rest
  tokens : Array Token
  columns : List Nat
  keyAllowed : Bool
  key : Option PossibleKey
  /-- What may be a key around each of the brackets that are open, the innermost first. -/
  outerKeys : List (Option PossibleKey)

namespace Scan

def ofText (text : List Char) : Scan :=
  ⟨.ofText text, #[], [], true, none, []⟩

def bracketed (scan : Scan) : Bool :=
  !scan.outerKeys.isEmpty

/-- Give up what may have been a key, unless it must be one. -/
def dropKey (scan : Scan) : Option Scan :=
  if scan.key.any (fun key => key.required) then none else some { scan with key := none }

def isPast (place : Place) (key : PossibleKey) : Bool :=
  key.place.line < place.line || key.place.index + maxKeyLength < place.index

def dropPastKey (scan : Scan) : Option Scan :=
  if scan.key.any (isPast scan.rest.place) then scan.dropKey else some scan

/-- Keep in mind that the next token may be a key. -/
def markKey (scan : Scan) : Option Scan :=
  if scan.keyAllowed then do
    let scan ← scan.dropKey
    let required := !scan.bracketed && scan.columns.head? == some scan.rest.place.column
    return { scan with key := some ⟨required, scan.tokens.size, scan.rest.place⟩ }
  else some scan

def add (scan : Scan) (token : Token) (rest : Rest) (keyAllowed : Bool) : Scan :=
  { scan with rest, keyAllowed, tokens := scan.tokens.push token }

def addMark (scan : Scan) (token : Token) (length : Nat) (keyAllowed : Bool) : Scan :=
  scan.add token (scan.rest.skip length) keyAllowed

/-- Open a block at a column that is further right, with its token behind so many others. -/
def openBlock (scan : Scan) (token : Token) (column number : Nat) : Scan :=
  if scan.bracketed || scan.columns.head?.any (fun current => column ≤ current) then scan
  else
    { scan with
      columns := column :: scan.columns, tokens := scan.tokens.insertIdxIfInBounds number token }

/-- Open a block that starts with the next token, where a key may start. -/
def openHere (scan : Scan) (token : Token) : Option Scan :=
  if scan.bracketed then some scan
  else if scan.keyAllowed then
    some (scan.openBlock token scan.rest.place.column scan.tokens.size)
  else none

def closeColumns (fits : Nat → Bool) : List Nat → Array Token → List Nat × Array Token
  | column :: columns, tokens =>
      if fits column then (column :: columns, tokens)
      else closeColumns fits columns (tokens.push .blockEnd)
  | [], tokens => ([], tokens)

/-- Close the blocks that do not fit, unless brackets are open. -/
def closeBlocks (scan : Scan) (fits : Nat → Bool) : Scan :=
  if scan.bracketed then scan
  else
    let ⟨rest, tokens, columns, keyAllowed, key, outerKeys⟩ := scan
    let (columns, tokens) := closeColumns fits columns tokens
    ⟨rest, tokens, columns, keyAllowed, key, outerKeys⟩

/-- Close all blocks, and give up what may have been a key. -/
def closeAll (scan : Scan) : Option Scan :=
  (scan.closeBlocks (fun _ => false)).dropKey

def addRead (scan : Scan) (read : Rest → Option (Token × Rest)) : Option Scan := do
  let scan ← scan.markKey
  let (token, rest) ← read scan.rest
  return scan.add token rest false

def scanMarker (scan : Scan) (token : Token) : Option Scan := do
  return (← scan.closeAll).addMark token 3 false

def scanDirective (scan : Scan) : Option Scan := do
  let scan ← scan.closeAll
  let (token, rest) ← readDirective scan.rest
  return scan.add token rest false

/-- The bracket that opens a sequence or a mapping. -/
def scanOpening (scan : Scan) (token : Token) : Option Scan := do
  let scan ← scan.markKey
  let scan := scan.addMark token 1 true
  return { scan with key := none, outerKeys := scan.key :: scan.outerKeys }

/-- The bracket that closes a sequence or a mapping. -/
def scanClosing (scan : Scan) (token : Token) : Option Scan := do
  let scan := (← scan.dropKey).addMark token 1 false
  match scan.outerKeys with
  | key :: outerKeys => return { scan with key, outerKeys }
  | [] => return scan

def scanComma (scan : Scan) : Option Scan := do
  return (← scan.dropKey).addMark .comma 1 true

def scanItem (scan : Scan) : Option Scan := do
  let scan ← (← scan.openHere .blockSequence).dropKey
  return scan.addMark .item 1 true

def scanKey (scan : Scan) : Option Scan := do
  let scan ← (← scan.openHere .blockMapping).dropKey
  return scan.addMark .key 1 (!scan.bracketed)

def scanValue (scan : Scan) : Option Scan :=
  match scan.key with
  | some key =>
      let ⟨rest, tokens, columns, keyAllowed, _, outerKeys⟩ := scan
      let tokens := tokens.insertIdxIfInBounds key.number .key
      let scan := Scan.mk rest tokens columns keyAllowed none outerKeys
      some ((scan.openBlock .blockMapping key.place.column key.number).addMark .value 1 false)
  | none => do
      let scan ← scan.openHere .blockMapping
      return scan.addMark .value 1 (!scan.bracketed)

def scanLines (scan : Scan) (style : ScalarStyle) : Option Scan := do
  let scan ← scan.dropKey
  let (text, rest) ← readLines style scan.columns.head? (scan.rest.skip 1)
  return scan.add (.scalar style text) rest true

def scanPlain (scan : Scan) : Option Scan := do
  let scan ← scan.markKey
  let context : PlainContext := ⟨scan.bracketed, scan.columns.head?.elim 0 (· + 1)⟩
  let scalar ← context.read [] .none scan.rest.place scan.rest.characters
  return scan.add (.scalar .plain scalar.text) scalar.rest scalar.broken

/-- A quoted scalar, given a reader of what is behind its first mark. -/
def scanQuoted (scan : Scan) (read : List Char → Gap → Place → List Char → Quoted) :
    Option Scan :=
  scan.addRead (fun rest =>
    (read [] .none (rest.place.right 1) (rest.characters.drop 1)).map (fun found =>
      (.scalar .quoted found.1, found.2)))

/-- The next token where something is left, given the first character and those behind it. -/
def token (scan : Scan) (first : Char) (behind : List Char) : Option Scan :=
  let lineStart := scan.rest.place.column == 0
  let apart := startsApart behind
  if lineStart && first == '%' then scan.scanDirective
  else if lineStart && startsWithThree '-' scan.rest.characters then
    scan.scanMarker .documentStart
  else if lineStart && startsWithThree '.' scan.rest.characters then
    scan.scanMarker .documentEnd
  else if first == '[' then scan.scanOpening .openSequence
  else if first == '\x7b' then scan.scanOpening .openMapping
  else if first == ']' then scan.scanClosing .closeSequence
  else if first == '\x7d' then scan.scanClosing .closeMapping
  else if first == ',' then scan.scanComma
  else if first == '-' && apart then scan.scanItem
  else if first == '?' && (scan.bracketed || apart) then scan.scanKey
  else if first == ':' && (scan.bracketed || apart) then scan.scanValue
  else if first == '*' then
    scan.addRead (fun rest => (readName rest).map (fun found => (.alias found.1, found.2)))
  else if first == '&' then
    scan.addRead (fun rest => (readName rest).map (fun found => (.anchor found.1, found.2)))
  else if first == '!' then scan.addRead (readTag scan.bracketed)
  else if first == '|' && !scan.bracketed then scan.scanLines .literal
  else if first == '>' && !scan.bracketed then scan.scanLines .folded
  else if first == '\x27' then scan.scanQuoted readSingle
  else if first == '"' then scan.scanQuoted readDouble
  else if PlainContext.starts scan.bracketed (first :: behind) then scan.scanPlain
  else none

/-- Pass over what stands before the next token, and close the blocks that end there. -/
def advance (scan : Scan) : Option Scan := do
  let ⟨rest, tokens, columns, keyAllowed, key, outerKeys⟩ := scan
  let (keyAllowed, rest) :=
    approach (!outerKeys.isEmpty) keyAllowed false rest.place rest.characters
  let scan ← (Scan.mk rest tokens columns keyAllowed key outerKeys).dropPastKey
  return scan.closeBlocks (fun column => column ≤ rest.place.column)

/-- All tokens from here on, of which there are fewer than the given number. -/
def run : Nat → Scan → Option (Array Token)
  | 0, _ => none
  | fuel + 1, scan =>
      match scan.advance with
      | none => none
      | some scan =>
          match scan.rest.characters with
          | [] => scan.closeAll.map (fun scan => scan.tokens)
          | first :: behind =>
              match scan.token first behind with
              | none => none
              | some scan => run fuel scan

end Scan

def tokens? (text : List Char) : Option (List Token) :=
  if text.all isAllowed then
    ((Scan.ofText text).run (text.length + 1)).map Array.toList
  else none

end Document

end SignalPatch
