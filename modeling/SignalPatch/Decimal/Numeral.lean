import SignalPatch.Decimal.Reading

/-!
# Numerals

A numeral is digits with an optional fraction and an optional power of ten.
Reading one takes the longest run of characters that continues it, and splits
the text without losing a character.
-/

namespace SignalPatch

/-- A power of ten as written: its mark, its sign if any, and its digits. -/
structure ExponentText where
  mark : Char
  sign : List Char
  digits : List Char
deriving DecidableEq

/-- A numeral as written. -/
structure Numeral where
  whole : List Char
  fraction : Option (List Char)
  exponent : Option ExponentText
deriving DecidableEq

namespace ExponentText

/-- The characters of a power of ten as written. -/
def source (exponent : ExponentText) : List Char :=
  exponent.mark :: (exponent.sign ++ exponent.digits)

/-- The bound from which on the digits of a power of ten no longer count. -/
def saturation : Nat :=
  65536

/-- The size of a power of ten: its digits count until they have reached the bound. -/
def magnitude (digits : List Char) : Nat :=
  digits.foldl (fun value digit =>
    if value < saturation then 10 * value + Decimal.digitValue digit else value) 0

def value (exponent : ExponentText) : Int :=
  let magnitude := magnitude exponent.digits
  if exponent.sign = ['-'] then -magnitude else magnitude

/-- The sign at the start of a text, if there is one. -/
def leadingSign : List Char → List Char
  | '+' :: _ => ['+']
  | '-' :: _ => ['-']
  | _ => []

/-- The power of ten whose mark has just been read. -/
def read (mark : Char) (characters : List Char) : ExponentText × List Char :=
  let sign := leadingSign characters
  let digits := characters.drop sign.length
  (⟨mark, sign, digits.takeWhile Char.isDigit⟩, digits.dropWhile Char.isDigit)

end ExponentText

namespace Numeral

def source (numeral : Numeral) : List Char :=
  numeral.whole ++
    (numeral.fraction.elim [] (fun digits => '.' :: digits) ++
      numeral.exponent.elim [] ExponentText.source)

/-- The text of a numeral in fault messages, where a power of ten is marked by a small letter. -/
def text (numeral : Numeral) : String :=
  let exponent := numeral.exponent.map (fun exponent => ⟨'e', exponent.sign, exponent.digits⟩)
  String.ofList (source ⟨numeral.whole, numeral.fraction, exponent⟩)

def value (numeral : Numeral) : Decimal :=
  .ofDigits numeral.whole (numeral.fraction.getD [])
    (numeral.exponent.elim 0 ExponentText.value)

/-- Whether a power of ten was begun without digits. -/
def lacksExponentDigits (numeral : Numeral) : Bool :=
  numeral.exponent.any (fun exponent => exponent.digits.isEmpty)

/-- The fraction at the start of a text, if there is one. -/
def readFraction : List Char → Option (List Char) × List Char
  | '.' :: characters =>
      (some (characters.takeWhile Char.isDigit), characters.dropWhile Char.isDigit)
  | characters => (none, characters)

/-- The power of ten at the start of a text, if there is one. -/
def readExponent : List Char → Option ExponentText × List Char
  | 'e' :: characters =>
      let exponent := ExponentText.read 'e' characters
      (some exponent.1, exponent.2)
  | 'E' :: characters =>
      let exponent := ExponentText.read 'E' characters
      (some exponent.1, exponent.2)
  | characters => (none, characters)

/-- The numeral at the start of a text, and the text behind it. -/
def read (characters : List Char) : Numeral × List Char :=
  let fraction := readFraction (characters.dropWhile Char.isDigit)
  let exponent := readExponent fraction.2
  (⟨characters.takeWhile Char.isDigit, fraction.1, exponent.1⟩, exponent.2)

/-- The number that a whole text writes, if it writes one. -/
def ofWhole? (characters : List Char) : Option Decimal :=
  let (numeral, rest) := read characters
  if rest.isEmpty && !numeral.lacksExponentDigits &&
      !(numeral.whole ++ numeral.fraction.getD []).isEmpty then
    some numeral.value
  else
    none

end Numeral

namespace ExponentText

theorem leadingSign_append_drop (characters : List Char) :
    leadingSign characters ++ characters.drop (leadingSign characters).length = characters := by
  unfold leadingSign
  split <;> simp

theorem source_append_rest (mark : Char) (characters : List Char) :
    (read mark characters).1.source ++ (read mark characters).2 = mark :: characters := by
  simp [read, source, leadingSign_append_drop]

end ExponentText

namespace Numeral

theorem readFraction_append_rest (characters : List Char) :
    (readFraction characters).1.elim [] (fun digits => '.' :: digits) ++
      (readFraction characters).2 = characters := by
  unfold readFraction
  split <;> simp

theorem readExponent_append_rest (characters : List Char) :
    (readExponent characters).1.elim [] ExponentText.source ++
      (readExponent characters).2 = characters := by
  unfold readExponent
  split <;> simp [ExponentText.source_append_rest]

theorem source_append_rest (characters : List Char) :
    (read characters).1.source ++ (read characters).2 = characters := by
  simp only [read, source, List.append_assoc, readExponent_append_rest,
    readFraction_append_rest, List.takeWhile_append_dropWhile]

/-- A text that starts with a digit, or with a point, starts with a nonempty numeral. -/
theorem source_ne_nil {first : Char} (others : List Char)
    (starts : first.isDigit = true ∨ first = '.') :
    (read (first :: others)).1.source ≠ [] := by
  rcases starts with digit | point
  · simp [read, source, digit]
  · subst point
    simp [read, source, readFraction]

end Numeral

end SignalPatch
