import SignalPatch.Document.Rest
import SignalPatch.Document.Token

/-!
# Names in documents

The names of anchors, the tags in front of nodes, and the directives in front of
a document.  A tag is a handle and a suffix.  The suffix may hold escaped bytes,
which must be formed like those of characters; a zero byte ends it.
-/

namespace SignalPatch

namespace Document

/-- What a reader finds at the front of a text, and what is left behind it. -/
abbrev Found (Value : Type) :=
  Option (Value × Rest)

def byteOf (character : Char) : UInt8 :=
  character.toNat.toUInt8

def bytesOf (text : List Char) : TagText :=
  text.map byteOf

/-- The name behind the mark of an anchor or an alias. -/
def readName (rest : Rest) : Found (List Char) :=
  let (name, rest) := (rest.skip 1).span isNameCharacter
  let ended := startsApart rest.characters ||
    rest.characters.head?.any (fun next => "?:,]\x7d%@`".toList.contains next)
  if !name.isEmpty && ended then some (name, rest) else none

/-- Whether a character may stand in the suffix of a tag; some may only between angle brackets. -/
def isTagCharacter (enclosed : Bool) (character : Char) : Bool :=
  isNameCharacter character || ";/?:@&=+$.!~*'()".toList.contains character ||
    (enclosed && (character == ',' || character == '[' || character == ']'))

/-- How many bytes a character has whose first byte is given. -/
def byteCount? (first : Nat) : Option Nat :=
  if first < 0x80 then some 1
  else if first < 0xC0 then none
  else if first < 0xE0 then some 2
  else if first < 0xF0 then some 3
  else if first < 0xF8 then some 4
  else none

/-- How many more escaped bytes must follow one, given how many had to before it. -/
def bytesBehind? : (due byte : Nat) → Option Nat
  | 0, first => (byteCount? first).map (fun count => count - 1)
  | due + 1, byte => if 0x80 ≤ byte && byte < 0xC0 then some due else none

/-- The suffix of a tag, given its bytes so far in reverse and how many escaped ones are due. -/
def readSuffix (enclosed : Bool) :
    (before : TagText) → (due : Nat) → Place → List Char → Found TagText
  | before, due, place, '%' :: high :: low :: characters =>
      match (code? [high, low]).bind (fun byte =>
        (bytesBehind? due byte).map (fun due => (byte, due))) with
      | none => none
      | some (byte, due) =>
          readSuffix enclosed (byte.toUInt8 :: before) due (place.right 3) characters
  | before, due, place, character :: characters =>
      if character == '%' || (due != 0 && isTagCharacter enclosed character) then none
      else if isTagCharacter enclosed character then
        readSuffix enclosed (byteOf character :: before) 0 (place.right 1) characters
      else if due = 0 then some (before.reverse, ⟨place, character :: characters⟩)
      else none
  | before, due, place, [] =>
      if due = 0 then some (before.reverse, ⟨place, []⟩) else none

/-- The suffix of a tag at the front of a text, up to a zero byte. -/
def suffix (enclosed : Bool) (rest : Rest) : Found TagText :=
  (readSuffix enclosed [] 0 rest.place rest.characters).map
    (fun found => (found.1.takeWhile (· != 0), found.2))

def suffixOfSome (enclosed : Bool) (rest : Rest) : Found TagText :=
  match suffix enclosed rest with
  | some (text, behind) =>
      if rest.place.index < behind.place.index then some (text, behind) else none
  | none => none

/-- A handle at the front of a text: an exclamation mark, a name, and perhaps a second mark. -/
def readHandle (rest : Rest) : TagText × Rest :=
  let (name, rest) := (rest.skip 1).span isNameCharacter
  if rest.startsWith '!' then (bytesOf ('!' :: name ++ ['!']), rest.skip 1)
  else (bytesOf ('!' :: name), rest)

def primaryHandle : TagText :=
  bytesOf ['!']

/-- A tag without a handle of its own; alone, the mark is the whole tag. -/
def withoutHandle (suffix : TagText) : TagText × TagText :=
  if suffix.isEmpty then ([], primaryHandle) else (primaryHandle, suffix)

/-- The handle and the suffix of a tag whose end is not yet checked. -/
def readOpenTag (rest : Rest) : Found (TagText × TagText) :=
  match rest.characters with
  | '!' :: '<' :: _ =>
      match suffixOfSome true (rest.skip 2) with
      | none => none
      | some (text, rest) =>
          if rest.startsWith '>' then some (([], text), rest.skip 1) else none
  | _ =>
      let (handle, behind) := readHandle rest
      if 1 < handle.length && handle.getLast? == some (byteOf '!') then
        (suffixOfSome false behind).map (fun found => ((handle, found.1), found.2))
      else
        (suffix false (rest.skip 1)).map (fun found => (withoutHandle found.1, found.2))

def readTag (bracketed : Bool) (rest : Rest) : Found Token :=
  match readOpenTag rest with
  | none => none
  | some ((handle, suffix), rest) =>
      if startsApart rest.characters || (bracketed && rest.startsWith ',') then
        some (.tag handle suffix, rest)
      else none

/-- A number of at most nine digits. -/
def readNumber (rest : Rest) : Found Nat :=
  let (digits, rest) := rest.span Char.isDigit
  if digits.isEmpty || 9 < digits.length then none
  else some (digits.foldl (fun value digit => 10 * value + (digit.toNat - 48)) 0, rest)

def readVersion (rest : Rest) : Option (Token × Rest) := do
  let (major, rest) ← readNumber rest.skipBlanks
  if rest.startsWith '.' then
    let (minor, rest) ← readNumber (rest.skip 1)
    return (.version major minor, rest)
  else none

/-- What a directive about a handle says. -/
def readMeaning (rest : Rest) : Option (Token × Rest) := do
  let rest := rest.skipBlanks
  if rest.startsWith '!' then
    let (name, rest) := readHandle rest
    if name.getLast? == some (byteOf '!') && rest.characters.head?.any isBlank then
      let (meaning, rest) ← suffixOfSome true rest.skipBlanks
      if startsApart rest.characters then return (.handle name meaning, rest) else none
    else none
  else none

/-- The directive at the front of a text, up to the next line. -/
def readDirective (rest : Rest) : Option (Token × Rest) := do
  let (name, rest) := (rest.skip 1).span isNameCharacter
  if startsApart rest.characters then
    let (token, rest) ←
      if name == "YAML".toList then readVersion rest
      else if name == "TAG".toList then readMeaning rest
      else none
    return (token, ← rest.nextLine?)
  else none

end Document

end SignalPatch
