import SignalPatch.Decimal.Numeral
import SignalPatch.Document.Character
import SignalPatch.Document.Node

/-!
# Values of configurations

The nodes of a document are read as sections of named values, as lists, texts,
numbers and choices.  An alias is read as the node that it stands for.
-/

namespace SignalPatch

/-- A node in its document. -/
structure ConfigValue where
  anchors : Document.Anchors
  node : Document.Node

/--
Reading values.  Aliases are followed, but not without end: the state is how many
more may be followed.
-/
abbrev Reading :=
  StateT Nat Option

/-- How many aliases may be followed for each part of a document. -/
def aliasesPerPart : Nat :=
  100

def Document.read? {Value : Type} (document : Document) (reader : ConfigValue → Reading Value) :
    Option Value :=
  (reader ⟨document.anchors, document.root⟩).run' (aliasesPerPart * document.parts)

abbrev Section :=
  List (List Char × ConfigValue)

namespace ConfigValue

def withNode (value : ConfigValue) (node : Document.Node) : ConfigValue :=
  ⟨value.anchors, node⟩

/-- The node, or the one that it stands for. -/
def content (value : ConfigValue) : Reading Document.Node :=
  match value.node with
  | .alias number => fun left =>
      match left with
      | 0 => none
      | left + 1 => (value.anchors.node? number).map (fun node => (node, left))
  | node => return node

/-- The text of a scalar, whatever its tag and its style are. -/
def readText (value : ConfigValue) : Reading (List Char) := do
  match ← value.content with
  | .scalar _ _ text => return text
  | _ => failure

/-- The names and values of a mapping; where nothing is written there are none. -/
def readSection (value : ConfigValue) : Reading Section := do
  match ← value.content with
  | .mapping _ entries =>
      entries.mapM (fun entry => do
        return (← (value.withNode entry.1).readText, value.withNode entry.2))
  | node => if node.isEmpty then return [] else failure

/-- The items of a sequence; where nothing is written there are none. -/
def readItems (value : ConfigValue) : Reading (List ConfigValue) := do
  match ← value.content with
  | .sequence _ items => return items.map value.withNode
  | node => if node.isEmpty then return [] else failure

def formatTag (name : String) : Document.TagText :=
  ("tag:yaml.org,2002:" ++ name).toUTF8.toList

/-- A tag of the program: what stands behind an exclamation mark, perhaps nothing. -/
def ownTag? : Document.TagText → Option String
  | 33 :: name => String.fromUTF8? name.toByteArray
  | _ => none

def isNullWord (text : List Char) : Bool :=
  ["~", "null", "Null", "NULL"].contains (String.ofList text)

/--
The text of a scalar that can be a number.  It is plain, or, unless a choice has
used up its tag, made of lines with the tag of such numbers.
-/
def numeral? (name : String) (chosen : Bool) : Document.Node → Option (List Char)
  | .scalar _ .plain text => some text
  | .scalar (some tag) .literal text =>
      if !chosen && tag == formatTag name then some text else none
  | _ => none

def digits? (base : Nat) (digits : List Char) : Option Nat :=
  if digits.isEmpty then none
  else
    digits.foldlM (fun value digit =>
      match Document.hexadecimal? digit with
      | some amount => if amount < base then some (base * value + amount) else none
      | none => none) 0

/-- The number that an unsigned text writes, in a base that its second character names. -/
def magnitude? : List Char → Option Nat
  | '0' :: 'x' :: digits => digits? 16 digits
  | '0' :: 'o' :: digits => digits? 8 digits
  | '0' :: 'b' :: digits => digits? 2 digits
  | ['0'] => some 0
  | '0' :: _ => none
  | digits => digits? 10 digits

/-- The text behind a plus sign, if there is one. -/
def withoutPlus : List Char → List Char
  | '+' :: rest => rest
  | text => text

/-- A whole number below a bound, which may be what a choice is about. -/
def readNaturalIn (chosen : Bool) (bound : Nat) (value : ConfigValue) : Reading Nat := do
  let text ← numeral? "int" chosen (← value.content)
  let number ← magnitude? (withoutPlus text)
  if number < bound then return number else failure

/-- A whole number below a bound. -/
def readNatural (bound : Nat) (value : ConfigValue) : Reading Nat :=
  value.readNaturalIn false bound

/-- A finite number without a sign, rounded to binary64 first, or the word for infinity. -/
def unsignedSample? (text : List Char) : Option Sample :=
  if [".inf", ".Inf", ".INF"].contains (String.ofList text) then some Sample.infinity
  else
    match Numeral.ofWhole? text with
    | none => none
    | some number =>
        if number.toDouble.isFinite then some (.ofDouble number.toDouble) else none

def sampleOfText? (text : List Char) : Option Sample :=
  if [".nan", ".NaN", ".NAN"].contains (String.ofList text) then some Sample.nan
  else
    match text with
    | '-' :: rest => (unsignedSample? rest).map (fun value => -value)
    | text => unsignedSample? (withoutPlus text)

def readSample (value : ConfigValue) : Reading Sample := do
  sampleOfText? (← numeral? "float" false (← value.content))

/-- A choice among names. -/
inductive Choice where
  | named (name : String)
  | tagged (name : String) (content : ConfigValue)

def readChoice (value : ConfigValue) : Reading Choice := do
  let content ← value.content
  match content.tag?.bind ownTag?, content with
  | some name, _ => return .tagged name (value.withNode content)
  | none, .scalar _ _ text => return .named (String.ofList text)
  | none, _ => failure

/-- Whether what a choice is about is left out. -/
def isUnit : Document.Node → Bool
  | .scalar _ .plain text => text.isEmpty || isNullWord text
  | _ => false

def Choice.name? : Choice → Option String
  | named name => some name
  | tagged name content => if isUnit content.node then some name else none

/--
A value, or nothing if a word says that there is none.  With the tag for it, it
must be such a word; with another tag it is a value in any case.
-/
def readOptional {Value : Type} (reader : ConfigValue → Reading Value) (value : ConfigValue) :
    Reading (Option Value) := do
  let content ← value.content
  let readSome : Reading (Option Value) := some <$> reader (value.withNode content)
  match content with
  | .scalar none .plain text =>
      if text.isEmpty || isNullWord text then return none else readSome
  | .scalar (some tag) .plain text =>
      if tag != formatTag "null" then readSome
      else if isNullWord text then return none
      else failure
  | _ => readSome

end ConfigValue

namespace Section

/-- The value of a name, if the name is there. -/
def readField {Value : Type} (entries : Section) (name : String)
    (reader : ConfigValue → Reading Value) : Reading (Option Value) :=
  match entries.filter (fun entry => entry.1 == name.toList) with
  | [] => return none
  | [entry] => some <$> reader entry.2
  | _ => failure

/-- The value of a name, or its standard value. -/
def readFieldOr {Value : Type} (entries : Section) (name : String) (standard : Value)
    (reader : ConfigValue → Reading Value) : Reading Value := do
  return (← entries.readField name reader).getD standard

def readRequired {Value : Type} (entries : Section) (name : String)
    (reader : ConfigValue → Reading Value) : Reading Value := do
  match ← entries.readField name reader with
  | some value => return value
  | none => failure

end Section

end SignalPatch
