import SignalPatch.Proofs.Language.Lexemes

/-!
# The longest lexeme

What is read at the start of a text is the lexeme that stands there, and where the
reading fails, none does.  Its kind is decided by its first character, or by the
first two for a numeral that starts with a point.
-/

namespace SignalPatch

theorem eq_false_of_imp {left right : Bool} (imp : left = true → right = true)
    (no : right = false) : left = false := by
  cases left with
  | false => rfl
  | true => rw [← no, imp rfl]

namespace Builtin

theorem ofName?_eq_some_iff {name : String} {function : Builtin} :
    ofName? name = some function ↔ function.name = name := by
  constructor
  · intro found
    have named := List.find?_some found
    exact eq_of_beq named
  · rintro rfl
    cases function <;> rfl

theorem ofName?_eq_none_iff {name : String} :
    ofName? name = none ↔ ∀ function : Builtin, function.name ≠ name := by
  constructor
  · intro absent function named
    rw [ofName?_eq_some_iff.mpr named] at absent
    cases absent
  · intro unnamed
    cases found : ofName? name with
    | none => rfl
    | some function => exact absurd (ofName?_eq_some_iff.mp found) (unnamed function)

end Builtin

namespace Lexeme

theorem symbol?_eq_some_iff {character : Char} {kind : TokenKind} :
    symbol? character = some kind ↔ (character, kind) ∈ TokenKind.symbols := by
  constructor
  · intro found
    unfold symbol? at found
    split at found <;> cases found <;> decide
  · intro member
    have all : ∀ entry ∈ TokenKind.symbols, symbol? entry.1 = some entry.2 := by decide
    exact all _ member

theorem symbol?_eq_none_iff {character : Char} :
    symbol? character = none ↔ ∀ kind, (character, kind) ∉ TokenKind.symbols := by
  rw [Option.eq_none_iff_forall_ne_some]
  exact forall_congr' (fun kind => not_congr symbol?_eq_some_iff)

/-- No symbol is a blank, or can stand in a word or a numeral. -/
theorem class_of_symbol {character : Char} {kind : TokenKind}
    (symbol : (character, kind) ∈ TokenKind.symbols) :
    isGapCharacter character = false ∧ isStray character = false := by
  have all : ∀ entry ∈ TokenKind.symbols,
      isGapCharacter entry.1 = false ∧ isStray entry.1 = false := by decide
  exact all _ symbol

theorem symbol?_of_isStray {character : Char} (stray : isStray character = true) :
    symbol? character = none := by
  rw [symbol?_eq_none_iff]
  intro kind symbol
  rw [(class_of_symbol symbol).2] at stray
  cases stray

theorem isGapCharacter_of_isStray {character : Char} (stray : isStray character = true) :
    isGapCharacter character = false := by
  apply Bool.eq_false_iff.mpr
  intro blank
  simp only [isGapCharacter, decide_eq_true_eq] at blank
  rcases blank with rfl | rfl | rfl
  · exact absurd stray (by decide)
  · exact absurd stray (by decide)
  · exact absurd stray (by decide)

theorem isWordPart_of_startsWord {character : Char} (starts : startsWord character = true) :
    isWordPart character = true := by
  simp only [startsWord, Bool.or_eq_true] at starts
  rw [← isWordCharacter_eq]
  simp only [isWordCharacter, Char.isAlphanum, Bool.or_eq_true]
  exact starts.imp Or.inl id

theorem isWordPart_of_isDigit {character : Char} (digit : character.isDigit = true) :
    isWordPart character = true := by
  rw [← isWordCharacter_eq]
  simp [isWordCharacter, Char.isAlphanum, digit]

theorem isStray_of_isWordPart {character : Char}
    (word : isWordPart character = true) : isStray character = true := by
  simp [isStray, word]

theorem isDigit_of_isAlpha {character : Char} (letter : character.isAlpha = true) :
    character.isDigit = false := by
  apply Bool.eq_false_iff.mpr
  intro digit
  have digitBounds : (48 ≤ character.val && character.val ≤ 57) = true := digit
  have letterBounds : ((65 ≤ character.val ∧ character.val ≤ 90 : Bool) ||
      (97 ≤ character.val && character.val ≤ 122)) = true := letter
  grind

theorem isDigit_of_startsWord {first : Char} (starts : startsWord first = true) :
    first.isDigit = false := by
  simp only [startsWord, Bool.or_eq_true, beq_iff_eq] at starts
  rcases starts with letter | rfl
  · exact isDigit_of_isAlpha letter
  · rfl

/-- What starts a word starts no numeral. -/
theorem startsNumber_of_startsWord {first : Char} (starts : startsWord first = true)
    (others : List Char) : startsNumber first others = false := by
  have noDigit := isDigit_of_startsWord starts
  have noPoint : first ≠ '.' := by
    rintro rfl
    cases starts
  simp [startsNumber, noDigit, noPoint]

theorem startsWord_of_isWordPart {character : Char}
    (word : isWordPart character = true) (noDigit : character.isDigit = false) :
    startsWord character = true := by
  rw [← isWordCharacter_eq] at word
  simpa [isWordCharacter, startsWord, Char.isAlphanum, noDigit] using word

/-- A stray character is what must not stand directly behind a numeral. -/
theorem strayAfter_eq (rest : List Char) : strayAfter rest = rest.head?.filter isStray := by
  rw [strayAfter, isWordCharacter_eq]
  rfl

end Lexeme

namespace Numeral

variable {numeral : Numeral} {rest : List Char}

/-- A numeral with digits starts with one of them, or with a point in front of one. -/
theorem startsNumber_of_source (begun : numeral.Begun)
    (digits_ne_nil : numeral.whole ++ numeral.fraction.getD [] ≠ []) (rest : List Char) :
    ∃ first others, numeral.source ++ rest = first :: others ∧
      Lexeme.startsNumber first others = true ∧ isStray first = true := by
  obtain ⟨whole, fraction, exponent⟩ := numeral
  cases whole with
  | cons digit digits =>
      have isDigit := begun.whole digit (List.mem_cons_self ..)
      refine ⟨digit, _, rfl, ?_, ?_⟩
      · simp [Lexeme.startsNumber, isDigit]
      · exact Lexeme.isStray_of_isWordPart (Lexeme.isWordPart_of_isDigit isDigit)
  | nil =>
      cases fraction with
      | none => exact absurd rfl digits_ne_nil
      | some digits =>
          cases digits with
          | nil => exact absurd rfl digits_ne_nil
          | cons digit digits =>
              have isDigit := begun.fraction _ rfl digit (List.mem_cons_self ..)
              refine ⟨'.', _, rfl, ?_, rfl⟩
              simp [Lexeme.startsNumber, isDigit]

theorem digits_read_ne_nil {first : Char} {others : List Char}
    (starts : Lexeme.startsNumber first others = true) :
    (read (first :: others)).1.whole ++ (read (first :: others)).1.fraction.getD [] ≠ [] := by
  simp only [Lexeme.startsNumber, Bool.or_eq_true, Bool.and_eq_true, beq_iff_eq] at starts
  rcases starts with digit | ⟨rfl, digit⟩
  · simp [read, digit]
  · cases others with
    | nil => cases digit
    | cons next others =>
        have isDigit : next.isDigit = true := digit
        simp [read, readFraction, isDigit]

theorem isWordPart_of_isMark {character : Char} (mark : isMark character = true) :
    isWordPart character = true := by
  simp only [isMark, Bool.or_eq_true, beq_iff_eq] at mark
  rcases mark with rfl | rfl
  · rfl
  · rfl

/-- What continues a complete numeral must not stand behind one. -/
theorem Complete.continues_eq_false (complete : numeral.Complete) {character : Char}
    (clear : isStray character = false) : numeral.continues character = false := by
  simp only [isStray, Bool.or_eq_false_iff] at clear
  obtain ⟨noPoint, noWord⟩ := clear
  have noDigit := eq_false_of_imp Lexeme.isWordPart_of_isDigit noWord
  have noMark := eq_false_of_imp isWordPart_of_isMark noWord
  obtain ⟨whole, fraction, exponent⟩ := numeral
  cases exponent with
  | none => simp [continues, noDigit, noMark, noPoint]
  | some exponent =>
      have digits_ne_nil := complete.exponent_ne_nil exponent rfl
      simp [continues, ExponentText.continues, noDigit, digits_ne_nil]

theorem Complete.longest (complete : numeral.Complete)
    (clear : rest.head?.any isStray = false) : rest.head?.any numeral.continues = false := by
  cases rest with
  | nil => rfl
  | cons next others => exact complete.continues_eq_false clear

theorem Complete.lacksExponentDigits_eq_false (complete : numeral.Complete) :
    numeral.lacksExponentDigits = false := by
  obtain ⟨whole, fraction, exponent⟩ := numeral
  cases exponent with
  | none => rfl
  | some exponent =>
      have digits_ne_nil := complete.exponent_ne_nil exponent rfl
      simp [lacksExponentDigits, digits_ne_nil]

end Numeral

namespace Lexeme

variable {characters : List Char} {numeral : Numeral} {rest : List Char}

theorem readNumber_eq_ok (complete : numeral.Complete)
    (clear : rest.head?.any isStray = false) :
    readNumber (numeral.source ++ rest) =
      .ok ⟨.number numeral.value.toSample, numeral.source, rest⟩ := by
  have numeralRead := Numeral.read_of_longest complete.toBegun (complete.longest clear)
  have noStray : strayAfter rest = none := by
    cases rest with
    | nil => rfl
    | cons next others =>
        have nextClear : isStray next = false := clear
        rw [strayAfter_eq]
        exact Option.filter_some_neg nextClear
  simp [readNumber, numeralRead, complete.lacksExponentDigits_eq_false, noStray]

theorem readNumber_of_missing {exponent : ExponentText} (begun : numeral.Begun)
    (found : numeral.exponent = some exponent) (noDigits : exponent.digits = [])
    (longest : rest.head?.any numeral.continues = false) :
    readNumber (numeral.source ++ rest) = .error (.missingExponentDigits numeral.text) := by
  have numeralRead := Numeral.read_of_longest begun longest
  have lacks : numeral.lacksExponentDigits = true := by
    simp [Numeral.lacksExponentDigits, found, noDigits]
  simp [readNumber, numeralRead, lacks]

theorem readNumber_of_stray {character : Char} {others : List Char}
    (complete : numeral.Complete) (longest : numeral.continues character = false)
    (stray : isStray character = true) :
    readNumber (numeral.source ++ character :: others) =
      .error (.malformedNumber (numeral.text.push character)) := by
  have numeralRead : Numeral.read (numeral.source ++ character :: others) =
      (numeral, character :: others) := Numeral.read_of_longest complete.toBegun longest
  have strayEq : strayAfter (character :: others) = some character := by
    rw [strayAfter_eq]
    exact Option.filter_some_pos stray
  simp [readNumber, numeralRead, complete.lacksExponentDigits_eq_false, strayEq]

theorem read_of_startsNumber {first : Char} {others : List Char}
    (starts : startsNumber first others = true) (stray : isStray first = true) :
    read first others = readNumber (first :: others) := by
  simp [read, symbol?_of_isStray stray, starts]

theorem read_of_startsWord {first : Char} {others : List Char}
    (starts : startsWord first = true) : read first others = .ok (readWord (first :: others)) := by
  have noSymbol := symbol?_of_isStray
    (isStray_of_isWordPart (isWordPart_of_startsWord starts))
  simp [read, noSymbol, startsNumber_of_startsWord starts, starts]

theorem read_of_isWord {word : String} (isWord : IsWord word.toList rest) :
    ∃ first others, word.toList ++ rest = first :: others ∧
      read first others = .ok ⟨.ofWord word, word.toList, rest⟩ := by
  obtain ⟨ne_nil, noDigit, inside, longest⟩ := isWord
  cases wordEq : word.toList with
  | nil => exact absurd wordEq ne_nil
  | cons first others =>
      rw [wordEq] at noDigit inside
      have firstStarts : startsWord first = true :=
        startsWord_of_isWordPart (inside first (List.mem_cons_self ..)) noDigit
      refine ⟨first, others ++ rest, rfl, ?_⟩
      have taken := takeWhile_append_of_boundary inside longest
      have dropped := dropWhile_append_of_boundary inside longest
      rw [List.cons_append] at taken dropped
      rw [read_of_startsWord firstStarts, readWord, isWordCharacter_eq, taken, dropped, ← wordEq,
        String.ofList_toList]

/-- Every lexeme is read where it stands. -/
theorem read_of_isLexeme {kind : TokenKind} {text : List Char}
    (isLexeme : IsLexeme kind text rest) :
    ∃ first others, text ++ rest = first :: others ∧
      read first others = .ok ⟨kind, text, rest⟩ := by
  cases isLexeme with
  | @symbol character _ _ symbol noComment =>
      refine ⟨character, rest, rfl, ?_⟩
      simp [read, symbol?_eq_some_iff.mpr symbol]
  | @builtin function _ word =>
      have kindEq : TokenKind.ofWord function.name = .builtin function := by
        rw [TokenKind.ofWord, Builtin.ofName?_eq_some_iff.mpr rfl]
      rw [← kindEq]
      exact read_of_isWord word
  | @name name _ word noFunction =>
      have kindEq : TokenKind.ofWord name = .name name := by
        rw [TokenKind.ofWord, Builtin.ofName?_eq_none_iff.mpr noFunction]
      rw [← kindEq]
      exact read_of_isWord word
  | @number numeral _ complete clear =>
      obtain ⟨first, others, wholeEq, starts, stray⟩ :=
        Numeral.startsNumber_of_source complete.toBegun complete.digits_ne_nil rest
      refine ⟨first, others, wholeEq, ?_⟩
      rw [read_of_startsNumber starts stray, ← wholeEq, readNumber_eq_ok complete clear]

/-- What is refused is not read. -/
theorem read_of_isRefused {cause : Cause} (refused : IsRefused cause rest) :
    ∃ first others, rest = first :: others ∧ read first others = .error cause := by
  cases refused with
  | @character character others noBlank noSymbol noWord noNumeral =>
      refine ⟨character, others, rfl, ?_⟩
      have noStart := eq_false_of_imp isWordPart_of_startsWord noWord
      have noDigit := eq_false_of_imp isWordPart_of_isDigit noWord
      have noNumber : startsNumber character others = false := by
        simp only [startsNumber, noDigit, Bool.false_or, Bool.and_eq_false_imp, beq_iff_eq]
        exact noNumeral
      simp [read, symbol?_eq_none_iff.mpr noSymbol, noNumber, noStart]
  | @exponent numeral exponent rest begun digits_ne_nil found noDigits longest =>
      obtain ⟨first, others, wholeEq, starts, stray⟩ :=
        Numeral.startsNumber_of_source begun digits_ne_nil rest
      refine ⟨first, others, wholeEq, ?_⟩
      rw [read_of_startsNumber starts stray, ← wholeEq,
        readNumber_of_missing begun found noDigits longest]
  | @stray numeral character others complete longest isStray =>
      obtain ⟨first, behind, wholeEq, starts, stray⟩ := Numeral.startsNumber_of_source
        complete.toBegun complete.digits_ne_nil (character :: others)
      refine ⟨first, behind, wholeEq, ?_⟩
      rw [read_of_startsNumber starts stray, ← wholeEq,
        readNumber_of_stray complete longest isStray]

variable {first : Char} {others : List Char}

theorem isLexeme_of_readNumber {lexeme : Lexeme} (starts : startsNumber first others = true)
    (success : readNumber (first :: others) = .ok lexeme) :
    IsLexeme lexeme.kind lexeme.text lexeme.rest := by
  have digits_ne_nil := Numeral.digits_read_ne_nil starts
  cases numeralRead : Numeral.read (first :: others) with
  | mk numeral rest =>
      obtain ⟨begun, longest, wholeEq⟩ := Numeral.read_eq_iff.mp numeralRead
      rw [numeralRead] at digits_ne_nil
      simp only [readNumber, numeralRead] at success
      split at success
      · cases success
      · rename_i complete
        split at success
        · cases success
        · rename_i noStray
          cases success
          refine .number ⟨begun, digits_ne_nil, ?_⟩ ?_
          · intro exponent found noDigits
            apply complete
            rw [Numeral.lacksExponentDigits, Option.mem_def.mp found, Option.any_some, noDigits]
            rfl
          · cases rest with
            | nil => rfl
            | cons next others =>
                rw [strayAfter_eq] at noStray
                have nextClear := Option.filter_eq_none_iff.mp noStray next rfl
                exact Bool.eq_false_iff.mpr nextClear

theorem isRefused_of_readNumber {cause : Cause} (starts : startsNumber first others = true)
    (failed : readNumber (first :: others) = .error cause) :
    IsRefused cause (first :: others) := by
  have digits_ne_nil := Numeral.digits_read_ne_nil starts
  cases numeralRead : Numeral.read (first :: others) with
  | mk numeral rest =>
      obtain ⟨begun, longest, wholeEq⟩ := Numeral.read_eq_iff.mp numeralRead
      rw [numeralRead] at digits_ne_nil
      simp only [readNumber, numeralRead] at failed
      rw [wholeEq]
      split at failed
      · rename_i lacks
        cases failed
        obtain ⟨exponent, found, noDigits⟩ := (Option.any_eq_true _ _).mp lacks
        exact .exponent begun digits_ne_nil found (List.isEmpty_iff.mp noDigits) longest
      · rename_i complete
        split at failed
        · rename_i character strayEq
          cases failed
          rw [strayAfter_eq] at strayEq
          obtain ⟨headEq, stray⟩ := Option.filter_eq_some_iff.mp strayEq
          obtain ⟨behind, rfl⟩ := List.head?_eq_some_iff.mp headEq
          refine .stray ⟨begun, digits_ne_nil, ?_⟩ longest stray
          intro exponent found noDigits
          apply complete
          rw [Numeral.lacksExponentDigits, Option.mem_def.mp found, Option.any_some, noDigits]
          rfl
        · cases failed

theorem isLexeme_of_isWord {word rest : List Char} (isWord : IsWord word rest) :
    IsLexeme (.ofWord (String.ofList word)) word rest := by
  have wordEq : (String.ofList word).toList = word := String.toList_ofList
  cases found : Builtin.ofName? (String.ofList word) with
  | some function =>
      have named := Builtin.ofName?_eq_some_iff.mp found
      have nameEq : function.name.toList = word := named ▸ wordEq
      rw [TokenKind.ofWord, found, ← nameEq]
      exact .builtin (nameEq.symm ▸ isWord)
  | none =>
      have lexeme : IsLexeme (.name (String.ofList word)) (String.ofList word).toList rest :=
        .name (wordEq.symm ▸ isWord) (Builtin.ofName?_eq_none_iff.mp found)
      rw [wordEq] at lexeme
      rw [TokenKind.ofWord, found]
      exact lexeme

theorem isLexeme_of_read {lexeme : Lexeme} (success : read first others = .ok lexeme)
    (noComment : first = '/' → others.head? ≠ some '/') :
    IsLexeme lexeme.kind lexeme.text lexeme.rest := by
  unfold read at success
  split at success
  · rename_i kind found
    cases success
    exact .symbol (symbol?_eq_some_iff.mp found) noComment
  · split at success
    · rename_i starts
      exact isLexeme_of_readNumber starts success
    · split at success
      · rename_i starts
        cases success
        apply isLexeme_of_isWord
        rw [readWord, isWordCharacter_eq]
        have taken := List.takeWhile_cons_of_pos (l := others)
          (isWordPart_of_startsWord starts)
        refine ⟨?_, ?_, fun _ member => List.mem_takeWhile_imp member, boundary_dropWhile _ _⟩
        · rw [taken]
          exact List.cons_ne_nil _ _
        · rw [taken]
          exact isDigit_of_startsWord starts
      · cases success

theorem isRefused_of_read {cause : Cause} (failed : read first others = .error cause)
    (noBlank : isGapCharacter first = false) : IsRefused cause (first :: others) := by
  unfold read at failed
  split at failed
  · cases failed
  · rename_i noSymbol
    split at failed
    · rename_i starts
      exact isRefused_of_readNumber starts failed
    · rename_i noNumber
      split at failed
      · cases failed
      · rename_i noStart
        cases failed
        simp only [startsNumber, Bool.or_eq_true, Bool.and_eq_true, beq_iff_eq, not_or,
          not_and] at noNumber
        have noDigit := Bool.eq_false_iff.mpr noNumber.1
        have noWord : isWordPart first = false :=
          eq_false_of_imp (startsWord_of_isWordPart · noDigit) (Bool.eq_false_iff.mpr noStart)
        exact .character noBlank (symbol?_eq_none_iff.mp noSymbol) noWord
          (fun point => Bool.eq_false_iff.mpr (noNumber.2 point))

end Lexeme

end SignalPatch
