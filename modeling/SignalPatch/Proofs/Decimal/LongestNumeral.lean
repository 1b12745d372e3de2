import Mathlib.Data.List.TakeWhile
import SignalPatch.Decimal.Numeral

/-!
# The longest numeral

Reading a numeral takes every character that continues it and no other: of all
ways to split a text into a numeral and a rest, it finds the one whose rest does
not start with such a character.  A numeral may be left unfinished, without any
digits or without those of its power of ten.
-/

namespace SignalPatch

theorem takeWhile_append_of_boundary {Element : Type} {holds : Element → Bool}
    {body rest : List Element} (inside : ∀ element ∈ body, holds element = true)
    (boundary : rest.head?.any holds = false) : (body ++ rest).takeWhile holds = body := by
  rw [List.takeWhile_append_of_pos inside]
  cases rest with
  | nil => exact List.append_nil body
  | cons next others =>
      have stops : holds next = false := boundary
      simp [stops]

theorem dropWhile_append_of_boundary {Element : Type} {holds : Element → Bool}
    {body rest : List Element} (inside : ∀ element ∈ body, holds element = true)
    (boundary : rest.head?.any holds = false) : (body ++ rest).dropWhile holds = rest := by
  rw [List.dropWhile_append_of_pos inside]
  cases rest with
  | nil => rfl
  | cons next others =>
      have stops : holds next = false := boundary
      simp [stops]

theorem boundary_dropWhile {Element : Type} (holds : Element → Bool) (elements : List Element) :
    (elements.dropWhile holds).head?.any holds = false := by
  have stops := List.head?_dropWhile_not holds elements
  split at stops
  · rename_i next headEq
    rw [headEq]
    exact stops
  · rename_i headEq
    rw [headEq]
    rfl

namespace ExponentText

def isSign (character : Char) : Bool :=
  character == '+' || character == '-'

/-- Whether a power of ten is written as one, except that it may have no digits yet. -/
structure Begun (exponent : ExponentText) : Prop where
  mark_eq : exponent.mark = 'e' ∨ exponent.mark = 'E'
  sign_eq : exponent.sign = [] ∨ exponent.sign = ['+'] ∨ exponent.sign = ['-']
  digits : ∀ character ∈ exponent.digits, character.isDigit = true

/-- Whether a character behind a power of ten belongs to it as well. -/
def continues (exponent : ExponentText) (character : Char) : Bool :=
  character.isDigit ||
    (exponent.sign.isEmpty && exponent.digits.isEmpty && isSign character)

theorem leadingSign_of_boundary {characters : List Char}
    (boundary : characters.head?.any isSign = false) : leadingSign characters = [] := by
  unfold leadingSign
  split
  · cases boundary
  · cases boundary
  · rfl

theorem leadingSign_cases (characters : List Char) :
    leadingSign characters = [] ∨ leadingSign characters = ['+'] ∨
      leadingSign characters = ['-'] := by
  unfold leadingSign
  split
  · exact Or.inr (Or.inl rfl)
  · exact Or.inr (Or.inr rfl)
  · exact Or.inl rfl

theorem isSign_of_isDigit {character : Char} (digit : character.isDigit = true) :
    isSign character = false := by
  cases sign : isSign character with
  | false => rfl
  | true =>
      simp only [isSign, Bool.or_eq_true, beq_iff_eq] at sign
      rcases sign with rfl | rfl
      · cases digit
      · cases digit

variable {exponent : ExponentText} {rest : List Char}

theorem boundary_of_longest (longest : rest.head?.any exponent.continues = false) :
    rest.head?.any Char.isDigit = false := by
  cases rest with
  | nil => rfl
  | cons next others =>
      simp only [List.head?_cons, Option.any_some, continues, Bool.or_eq_false_iff] at longest
      exact longest.1

theorem leadingSign_of_longest (begun : exponent.Begun)
    (longest : rest.head?.any exponent.continues = false) :
    leadingSign (exponent.sign ++ (exponent.digits ++ rest)) = exponent.sign := by
  obtain ⟨mark, sign, digits⟩ := exponent
  rcases begun.sign_eq with rfl | rfl | rfl
  · apply leadingSign_of_boundary
    cases digits with
    | cons digit others => exact isSign_of_isDigit (begun.digits digit (List.mem_cons_self ..))
    | nil =>
        cases rest with
        | nil => rfl
        | cons next others =>
            simp only [List.head?_cons, Option.any_some, continues, Bool.or_eq_false_iff] at longest
            exact longest.2
  · rfl
  · rfl

theorem read_of_longest (begun : exponent.Begun)
    (longest : rest.head?.any exponent.continues = false) :
    read exponent.mark (exponent.sign ++ (exponent.digits ++ rest)) = (exponent, rest) := by
  have boundary := boundary_of_longest longest
  rw [read, leadingSign_of_longest begun longest, List.drop_left,
    takeWhile_append_of_boundary begun.digits boundary,
    dropWhile_append_of_boundary begun.digits boundary]

theorem begun_read {mark : Char} (marks : mark = 'e' ∨ mark = 'E') (characters : List Char) :
    (read mark characters).1.Begun :=
  ⟨marks, leadingSign_cases characters, fun _ member => List.mem_takeWhile_imp member⟩

theorem boundary_of_leadingSign {characters : List Char}
    (unsigned : leadingSign characters = []) : characters.head?.any isSign = false := by
  unfold leadingSign at unsigned
  split at unsigned
  · cases unsigned
  · cases unsigned
  · rename_i noPlus noMinus
    cases characters with
    | nil => rfl
    | cons first others =>
        have notPlus : first ≠ '+' := fun same => noPlus others (same ▸ rfl)
        have notMinus : first ≠ '-' := fun same => noMinus others (same ▸ rfl)
        simp [isSign, notPlus, notMinus]

theorem longest_read (mark : Char) (characters : List Char) :
    (read mark characters).2.head?.any (read mark characters).1.continues = false := by
  have boundary : (read mark characters).2.head?.any Char.isDigit = false :=
    boundary_dropWhile Char.isDigit _
  cases restEq : (read mark characters).2 with
  | nil => rfl
  | cons next others =>
      rw [restEq] at boundary
      have noDigit : next.isDigit = false := boundary
      -- without sign and digits the rest is the whole text, which starts with no sign
      have unsigned : (read mark characters).1.sign = [] →
          (read mark characters).1.digits = [] → isSign next = false := by
        intro noSign noDigits
        have whole := source_append_rest mark characters
        rw [source, noSign, noDigits, restEq] at whole
        have charactersEq : next :: others = characters := (List.cons.inj whole).2
        have signless := boundary_of_leadingSign noSign
        rw [← charactersEq] at signless
        exact signless
      simp only [List.head?_cons, Option.any_some, continues, noDigit, Bool.false_or,
        Bool.and_eq_false_imp, Bool.and_eq_true, List.isEmpty_iff]
      exact fun both => unsigned both.1 both.2

end ExponentText

namespace Numeral

/-- Whether a numeral is written as one, except that digits may still be missing. -/
structure Begun (numeral : Numeral) : Prop where
  whole : ∀ character ∈ numeral.whole, character.isDigit = true
  fraction : ∀ digits ∈ numeral.fraction, ∀ character ∈ digits, character.isDigit = true
  exponent : ∀ exponent ∈ numeral.exponent, exponent.Begun

def isMark (character : Char) : Bool :=
  character == 'e' || character == 'E'

/-- Whether a character behind a numeral belongs to it as well. -/
def continues (numeral : Numeral) (character : Char) : Bool :=
  match numeral.exponent with
  | some exponent => exponent.continues character
  | none =>
      character.isDigit || isMark character || (numeral.fraction.isNone && character == '.')

theorem readFraction_of_boundary {characters : List Char}
    (boundary : characters.head?.any (· == '.') = false) :
    readFraction characters = (none, characters) := by
  unfold readFraction
  split
  · cases boundary
  · rfl

theorem readExponent_of_boundary {characters : List Char}
    (boundary : characters.head?.any isMark = false) :
    readExponent characters = (none, characters) := by
  unfold readExponent
  split
  · cases boundary
  · cases boundary
  · rfl

variable {numeral : Numeral} {rest : List Char}

theorem readExponent_of_longest (begun : numeral.Begun)
    (longest : rest.head?.any numeral.continues = false) :
    readExponent (numeral.exponent.elim [] ExponentText.source ++ rest) =
      (numeral.exponent, rest) := by
  obtain ⟨whole, fraction, exponent⟩ := numeral
  cases exponent with
  | none =>
      apply readExponent_of_boundary
      cases rest with
      | nil => rfl
      | cons next others =>
          simp only [List.head?_cons, Option.any_some, continues, Bool.or_eq_false_iff] at longest
          exact longest.1.2
  | some exponent =>
      have exponentBegun := begun.exponent exponent rfl
      have exponentRead := ExponentText.read_of_longest exponentBegun longest
      have sourceEq : (some exponent).elim [] ExponentText.source ++ rest =
          exponent.mark :: (exponent.sign ++ (exponent.digits ++ rest)) := by
        simp [ExponentText.source]
      rw [sourceEq]
      rcases exponentBegun.mark_eq with mark | mark
      · rw [mark] at exponentRead ⊢
        simp only [readExponent, exponentRead]
      · rw [mark] at exponentRead ⊢
        simp only [readExponent, exponentRead]

/-- Behind the digits of a numeral stands a point, a mark or what does not continue it. -/
theorem boundary_of_longest (begun : numeral.Begun)
    (longest : rest.head?.any numeral.continues = false) :
    (numeral.exponent.elim [] ExponentText.source ++ rest).head?.any Char.isDigit = false ∧
      (numeral.fraction = none → (numeral.exponent.elim [] ExponentText.source ++ rest).head?.any
        (· == '.') = false) := by
  obtain ⟨whole, fraction, exponent⟩ := numeral
  cases exponent with
  | none =>
      cases rest with
      | nil => exact ⟨rfl, fun _ => rfl⟩
      | cons next others =>
          simp only [List.head?_cons, Option.any_some, continues, Bool.or_eq_false_iff] at longest
          refine ⟨longest.1.1, ?_⟩
          rintro rfl
          exact longest.2
  | some exponent =>
      simp only [Option.elim_some, ExponentText.source, List.cons_append, List.head?_cons,
        Option.any_some]
      rcases (begun.exponent exponent rfl).mark_eq with mark | mark
      · rw [mark]
        exact ⟨rfl, fun _ => rfl⟩
      · rw [mark]
        exact ⟨rfl, fun _ => rfl⟩

/-- A numeral that is not continued by what stands behind it is read as it is written. -/
theorem read_of_longest (begun : numeral.Begun)
    (longest : rest.head?.any numeral.continues = false) :
    read (numeral.source ++ rest) = (numeral, rest) := by
  obtain ⟨noDigit, noPoint⟩ := boundary_of_longest begun longest
  have exponentRead := readExponent_of_longest begun longest
  obtain ⟨whole, fraction, exponent⟩ := numeral
  have fractionRead : readFraction (fraction.elim [] (fun digits => '.' :: digits) ++
      (exponent.elim [] ExponentText.source ++ rest)) =
        (fraction, exponent.elim [] ExponentText.source ++ rest) := by
    cases fraction with
    | none => exact readFraction_of_boundary (noPoint rfl)
    | some digits =>
        have inside := begun.fraction digits rfl
        simp only [Option.elim_some, List.cons_append, readFraction,
          takeWhile_append_of_boundary inside noDigit, dropWhile_append_of_boundary inside noDigit]
  have boundary : (fraction.elim [] (fun digits => '.' :: digits) ++
      (exponent.elim [] ExponentText.source ++ rest)).head?.any Char.isDigit = false := by
    cases fraction with
    | none => exact noDigit
    | some digits => rfl
  simp only [read, source, List.append_assoc, takeWhile_append_of_boundary begun.whole boundary,
    dropWhile_append_of_boundary begun.whole boundary, fractionRead, exponentRead]

theorem begun_read (characters : List Char) : (read characters).1.Begun := by
  refine ⟨fun _ member => List.mem_takeWhile_imp member, ?_, ?_⟩
  · intro digits found
    simp only [read, readFraction] at found
    split at found
    · cases found
      exact fun _ member => List.mem_takeWhile_imp member
    · cases found
  · intro exponent found
    simp only [read, readExponent] at found
    split at found
    · cases found
      exact ExponentText.begun_read (Or.inl rfl) _
    · cases found
      exact ExponentText.begun_read (Or.inr rfl) _
    · cases found

theorem boundary_readFraction {characters : List Char}
    (noDigit : characters.head?.any Char.isDigit = false) :
    (readFraction characters).2.head?.any Char.isDigit = false ∧
      ((readFraction characters).1 = none →
        (readFraction characters).2.head?.any (· == '.') = false) := by
  unfold readFraction
  split
  · exact ⟨boundary_dropWhile _ _, fun found => nomatch found⟩
  · rename_i noPoint
    refine ⟨noDigit, fun _ => ?_⟩
    cases characters with
    | nil => rfl
    | cons first others =>
        have notPoint : first ≠ '.' := fun same => noPoint others (same ▸ rfl)
        simp [notPoint]

theorem boundary_readExponent {characters : List Char}
    (absent : (readExponent characters).1 = none) :
    (readExponent characters).2 = characters ∧ characters.head?.any isMark = false := by
  unfold readExponent at absent ⊢
  split at absent
  · cases absent
  · cases absent
  · rename_i noSmall noLarge
    refine ⟨rfl, ?_⟩
    cases characters with
    | nil => rfl
    | cons first others =>
        have notSmall : first ≠ 'e' := fun same => noSmall others (same ▸ rfl)
        have notLarge : first ≠ 'E' := fun same => noLarge others (same ▸ rfl)
        simp [isMark, notSmall, notLarge]

theorem longest_of_readExponent {characters : List Char} {exponent : ExponentText}
    (found : (readExponent characters).1 = some exponent) :
    (readExponent characters).2.head?.any exponent.continues = false := by
  unfold readExponent at found ⊢
  split at found
  · cases found
    exact ExponentText.longest_read _ _
  · cases found
    exact ExponentText.longest_read _ _
  · cases found

/-- No character behind a numeral that was read continues it. -/
theorem longest_read (characters : List Char) :
    (read characters).2.head?.any (read characters).1.continues = false := by
  obtain ⟨noDigit, noPoint⟩ :=
    boundary_readFraction (boundary_dropWhile Char.isDigit characters)
  simp only [read]
  cases found : (readExponent (readFraction (characters.dropWhile Char.isDigit)).2).1 with
  | some exponent => exact longest_of_readExponent found
  | none =>
      obtain ⟨restEq, noMark⟩ := boundary_readExponent found
      rw [restEq]
      cases rest : (readFraction (characters.dropWhile Char.isDigit)).2 with
      | nil => rfl
      | cons next others =>
          rw [rest] at noDigit noPoint noMark
          simp only [List.head?_cons, Option.any_some] at noDigit noPoint noMark
          cases fraction : (readFraction (characters.dropWhile Char.isDigit)).1 with
          | none => simp [continues, noDigit, noMark, noPoint fraction]
          | some digits => simp [continues, noDigit, noMark]

/-- Reading finds the one numeral at the start of a text that nothing behind it continues. -/
theorem read_eq_iff {characters : List Char} :
    read characters = (numeral, rest) ↔
      numeral.Begun ∧ rest.head?.any numeral.continues = false ∧
        characters = numeral.source ++ rest := by
  constructor
  · intro readEq
    have begun := begun_read characters
    have longest := longest_read characters
    have whole := source_append_rest characters
    rw [readEq] at begun longest whole
    exact ⟨begun, longest, whole.symm⟩
  · rintro ⟨begun, longest, rfl⟩
    exact read_of_longest begun longest

end Numeral

end SignalPatch
