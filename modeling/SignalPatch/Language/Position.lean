/-!
# Positions in patch text

Faults are reported at a line and a column.  Both count from one, and a column
is one character, whatever its width or encoding.
-/

namespace SignalPatch

/-- A line and a column of a text. -/
structure Position where
  line : Nat
  column : Nat
deriving DecidableEq

namespace Position

def start : Position :=
  ⟨1, 1⟩

/-- The position behind one character; a newline starts the next line. -/
def step (position : Position) (character : Char) : Position :=
  if character = '\n' then ⟨position.line + 1, 1⟩
  else ⟨position.line, position.column + 1⟩

def advance (position : Position) (characters : List Char) : Position :=
  characters.foldl step position

end Position

/-- A text that is read one character at a time. -/
structure Cursor where
  rest : List Char
  position : Position

namespace Cursor

def ofText (text : String) : Cursor :=
  ⟨text.toList, Position.start⟩

def peek? (cursor : Cursor) : Option Char :=
  cursor.rest.head?

def peekNext? (cursor : Cursor) : Option Char :=
  cursor.rest.tail.head?

/-- Step over the character at the cursor, if there is one. -/
def advance (cursor : Cursor) : Cursor :=
  match cursor.rest with
  | [] => cursor
  | character :: rest => ⟨rest, cursor.position.step character⟩

/-- Whether nothing is left to read. -/
def atEnd (cursor : Cursor) : Bool :=
  cursor.rest.isEmpty

end Cursor

end SignalPatch
