import SignalPatch.Proofs.Language.Spelling
import SignalPatch.Proofs.Language.StatementSequence

/-!
# Printed trees are read again

The text of statements is read as these statements, wherever they were before.  Its
tokens are those of a derivation of the statements, which has parentheses where
the text has them.
-/

namespace SignalPatch

namespace BinaryOperator

def kind : BinaryOperator → TokenKind
  | add => .plus
  | subtract => .minus
  | multiply => .star
  | divide => .slash
  | remainder => .percent
  | power => .caret

theorem exists_character (operator : BinaryOperator) :
    ∃ character, operator.symbol.toList = [character] ∧
      (character, operator.kind) ∈ TokenKind.symbols := by
  cases operator <;> exact ⟨_, rfl, by decide⟩

theorem operator?_kind_of_term (operator : BinaryOperator) (isTerm : operator.level = .term) :
    Level.factor.operator? operator.kind = some operator := by
  cases operator with
  | multiply | divide | remainder => rfl
  | add | subtract | power => cases isTerm

theorem operator?_kind_of_expression (operator : BinaryOperator)
    (isExpression : operator.level = .expression) :
    Level.term.operator? operator.kind = some operator := by
  cases operator with
  | add | subtract => rfl
  | multiply | divide | remainder | power => cases isExpression

end BinaryOperator

namespace Chain

variable {level : Level} {symbol : TokenKind} {operator : BinaryOperator}

def snoc (joins : level.operator? symbol = some operator) (position : Position)
    (last : Phrase level) : Chain level → Chain level
  | .finish => .join symbol operator joins position last .finish
  | .join first firstOperator firstJoins firstPosition operand others =>
      .join first firstOperator firstJoins firstPosition operand (others.snoc joins position last)

variable (joins : level.operator? symbol = some operator) (position : Position)
  (last : Phrase level)

theorem yield_snoc (chain : Chain level) :
    (chain.snoc joins position last).yield = chain.yield ++ ⟨symbol, position⟩ :: last.yield := by
  cases chain with
  | finish => simp [snoc, yield]
  | join first firstOperator firstJoins firstPosition operand others =>
      simp [snoc, yield, yield_snoc others]

theorem tree_snoc (chain : Chain level) :
    ∀ left, (chain.snoc joins position last).tree left =
      .binary operator (chain.tree left) last.tree position := by
  cases chain with
  | finish => simp [snoc, tree]
  | join first firstOperator firstJoins firstPosition operand others =>
      intro left
      simp only [snoc, tree, tree_snoc others]

theorem nesting_snoc (chain : Chain level) :
    (chain.snoc joins position last).nesting = max chain.nesting last.nesting := by
  cases chain with
  | finish => simp [snoc, nesting]
  | join first firstOperator firstJoins firstPosition operand others =>
      simp [snoc, nesting, nesting_snoc others, Nat.max_assoc]

end Chain

namespace Phrase

/-- A term with one more factor, which is joined to all that stands before it. -/
theorem exists_term (operator : BinaryOperator)
    (joins : Level.factor.operator? operator.kind = some operator) (left : Phrase .term)
    (position : Position) (right : Phrase .factor) :
    ∃ joined : Phrase .term,
      joined.yield = left.yield ++ ⟨operator.kind, position⟩ :: right.yield ∧
      joined.tree = .binary operator left.tree right.tree position ∧
      joined.nesting = max left.nesting right.nesting := by
  cases left with
  | term first others =>
      refine ⟨.term first (others.snoc joins position right), ?_, ?_, ?_⟩
      · simp [yield, Chain.yield_snoc]
      · simp [tree, Chain.tree_snoc]
      · simp [nesting, Chain.nesting_snoc, Nat.max_assoc]

theorem exists_expression (operator : BinaryOperator)
    (joins : Level.term.operator? operator.kind = some operator) (left : Phrase .expression)
    (position : Position) (right : Phrase .term) :
    ∃ joined : Phrase .expression,
      joined.yield = left.yield ++ ⟨operator.kind, position⟩ :: right.yield ∧
      joined.tree = .binary operator left.tree right.tree position ∧
      joined.nesting = max left.nesting right.nesting := by
  cases left with
  | expression first others =>
      refine ⟨.expression first (others.snoc joins position right), ?_, ?_, ?_⟩
      · simp [yield, Chain.yield_snoc]
      · simp [tree, Chain.tree_snoc]
      · simp [nesting, Chain.nesting_snoc, Nat.max_assoc]

theorem exists_operation (operator : BinaryOperator) (left : Phrase operator.leftLevel)
    (position : Position) (right : Phrase operator.rightLevel) :
    ∃ joined : Phrase operator.level,
      joined.yield = left.yield ++ ⟨operator.kind, position⟩ :: right.yield ∧
      joined.tree = .binary operator left.tree right.tree position ∧
      joined.nesting = max left.nesting (operator.rightNesting right.nesting) := by
  have joinsFactors := operator.operator?_kind_of_term
  have joinsTerms := operator.operator?_kind_of_expression
  cases operator with
  | power => exact ⟨.power left position right, rfl, rfl, rfl⟩
  | multiply | divide | remainder => exact exists_term _ (joinsFactors rfl) left position right
  | add | subtract => exact exists_expression _ (joinsTerms rfl) left position right

/-- A derivation of a tree whose tokens are spelled by a text, and how deeply it nests. -/
structure Writes {level : Level} (phrase : Phrase level) (text : List Char)
    (source : Expression) (nesting : Nat) : Prop where
  tree_eq : phrase.tree = source
  nesting_eq : phrase.nesting = nesting
  spells : Spells text (phrase.yield.map Token.kind)

theorem yield_ne_nil {level : Level} (phrase : Phrase level) : phrase.yield ≠ [] := by
  obtain ⟨token, others, yieldEq, _⟩ := phrase.exists_yield
  rw [yieldEq]
  exact List.cons_ne_nil _ _

end Phrase

namespace Level

/-- Whether a text writes a tree as a phrase of a level, and how deeply it nests. -/
def Derives (level : Level) (text : List Char) (source : Expression) (nesting : Nat) : Prop :=
  ∃ phrase : Phrase level, phrase.Writes text source nesting

namespace Derives

variable {text : List Char} {source : Expression} {nesting : Nat}

theorem signed (derives : primary.Derives text source nesting) :
    Level.signed.Derives text source nesting := by
  obtain ⟨operand, writes⟩ := derives
  exact ⟨.unsigned operand, writes.tree_eq, writes.nesting_eq, writes.spells⟩

theorem factor (derives : Level.signed.Derives text source nesting) :
    Level.factor.Derives text source nesting := by
  obtain ⟨base, writes⟩ := derives
  exact ⟨.plain base, writes.tree_eq, writes.nesting_eq, writes.spells⟩

theorem term (derives : Level.factor.Derives text source nesting) :
    Level.term.Derives text source nesting := by
  obtain ⟨first, writes⟩ := derives
  refine ⟨.term first .finish, writes.tree_eq, ?_, ?_⟩
  · rw [Phrase.nesting, Chain.nesting, Nat.max_zero, writes.nesting_eq]
  · rw [Phrase.yield, Chain.yield, List.append_nil]
    exact writes.spells

theorem expression (derives : Level.term.Derives text source nesting) :
    Level.expression.Derives text source nesting := by
  obtain ⟨first, writes⟩ := derives
  refine ⟨.expression first .finish, writes.tree_eq, ?_, ?_⟩
  · rw [Phrase.nesting, Chain.nesting, Nat.max_zero, writes.nesting_eq]
  · rw [Phrase.yield, Chain.yield, List.append_nil]
    exact writes.spells

/-- What is written as a phrase of a level is one of every looser level. -/
theorem raised {inner outer : Level} (looser : inner.looseness ≤ outer.looseness)
    (derives : inner.Derives text source nesting) : outer.Derives text source nesting := by
  cases inner with
  | primary =>
      cases outer with
      | primary => exact derives
      | signed => exact derives.signed
      | factor => exact derives.signed.factor
      | term => exact derives.signed.factor.term
      | expression => exact derives.signed.factor.term.expression
  | signed =>
      cases outer with
      | primary => cases looser
      | signed => exact derives
      | factor => exact derives.factor
      | term => exact derives.factor.term
      | expression => exact derives.factor.term.expression
  | factor =>
      cases outer with
      | primary | signed => simp [looseness] at looser
      | factor => exact derives
      | term => exact derives.term
      | expression => exact derives.term.expression
  | term =>
      cases outer with
      | primary | signed | factor => simp [looseness] at looser
      | term => exact derives
      | expression => exact derives.expression
  | expression =>
      cases outer with
      | primary | signed | factor | term => simp [looseness] at looser
      | expression => exact derives

theorem loosest {level : Level} (derives : level.Derives text source nesting) :
    Level.expression.Derives text source nesting := by
  apply derives.raised
  cases level <;> decide

theorem parentheses (derives : Level.expression.Derives text source nesting) :
    primary.Derives ('(' :: (text ++ [')'])) source (nesting + 1) := by
  obtain ⟨inner, writes⟩ := derives
  refine ⟨.parentheses .start inner .start, writes.tree_eq, ?_, ?_⟩
  · rw [Phrase.nesting, writes.nesting_eq]
  · simpa [Phrase.yield] using writes.spells.parentheses

/-- The parentheses around a part make it one of the level that is asked for. -/
theorem enclosed {inner : Level} (outer : Level) (derives : inner.Derives text source nesting) :
    outer.Derives (outer.enclosed inner text) source (outer.enclosedNesting inner nesting) := by
  unfold Level.enclosed enclosedNesting
  split
  · rename_i looser
    exact derives.raised looser
  · exact derives.loosest.parentheses.raised (Nat.zero_le _)

theorem operation {operator : BinaryOperator} {leftText rightText : List Char}
    {left right : Expression} {leftNesting rightNesting : Nat} (position : Position)
    (leftDerives : operator.leftLevel.Derives leftText left leftNesting)
    (rightDerives : operator.rightLevel.Derives rightText right rightNesting) :
    operator.level.Derives (leftText ++ (' ' :: operator.symbol.toList ++ ' ' :: rightText))
      (.binary operator left right position)
      (max leftNesting (operator.rightNesting rightNesting)) := by
  obtain ⟨first, firstWrites⟩ := leftDerives
  obtain ⟨second, secondWrites⟩ := rightDerives
  obtain ⟨joined, yieldEq, treeEq, nestingEq⟩ := Phrase.exists_operation _ first position second
  obtain ⟨character, symbolEq, member⟩ := operator.exists_character
  refine ⟨joined, ?_, ?_, ?_⟩
  · rw [treeEq, firstWrites.tree_eq, secondWrites.tree_eq]
  · rw [nestingEq, firstWrites.nesting_eq, secondWrites.nesting_eq]
  · have nonempty : second.yield.map Token.kind ≠ [] := by
      simpa using second.yield_ne_nil
    have spells := firstWrites.spells.operation member secondWrites.spells nonempty
    rw [symbolEq, yieldEq]
    simpa using spells

end Derives

end Level

namespace CallHead

theorem exists_ofWord (word : String) :
    ∃ head : CallHead, head.kind = .ofWord word ∧ head.called = word := by
  cases found : Builtin.ofName? word with
  | some function =>
      refine ⟨.builtin function, ?_, Builtin.ofName?_eq_some_iff.mp found⟩
      rw [TokenKind.ofWord, found]
      rfl
  | none =>
      refine ⟨.name word, ?_, rfl⟩
      rw [TokenKind.ofWord, found]
      rfl

end CallHead

theorem IsIdentifier.spells {name : String} (isIdentifier : IsIdentifier name) :
    Spells name.toList [.ofWord name] := by
  intro rest clear
  have lexeme := Lexeme.isLexeme_of_isWord (isIdentifier.of_isClear clear)
  rw [String.ofList_toList] at lexeme
  exact lexeme.isSpelling

theorem IsVariableName.spells {name : String} (isName : IsVariableName name) :
    Spells name.toList [.name name] := by
  intro rest clear
  exact (IsLexeme.name (isName.word.of_isClear clear) isName.noFunction).isSpelling

theorem Numeral.Writes.spells {numeral : Numeral} {value : Sample}
    (writes : numeral.Writes value) : Spells numeral.source [.number value] := by
  intro rest clear
  have lexeme : IsLexeme (.number numeral.value.toSample) numeral.source rest :=
    .number writes.complete clear
  rw [writes.toSample_eq] at lexeme
  exact lexeme.isSpelling

theorem Spells.minus {text : List Char} {kinds : List TokenKind} (spells : Spells text kinds) :
    Spells ('-' :: text) (.minus :: kinds) := by
  intro rest clear
  exact (spells rest clear).symbol (by decide) nofun

/-- Derivations of arguments, the tokens of which are spelled by a text. -/
structure Arguments.Writes (first : Phrase .expression) (others : Arguments) (text : List Char)
    (sources : List Expression) (nesting : Nat) : Prop where
  trees_eq : first.tree :: others.trees = sources
  nesting_eq : max first.nesting others.nesting = nesting
  spells : Spells text ((first.yield ++ others.yield).map Token.kind)

namespace Expression

variable {write : Sample → Numeral}

mutual

/-- The text of a printable tree writes it as a phrase of its level. -/
theorem derives_text (source : Expression) (printable : source.IsPrintable write) :
    source.level.Derives (source.text write) source source.nesting := by
  cases source with
  | literal value position => exact ⟨.number value position, rfl, rfl, printable.spells⟩
  | reference name position => exact ⟨.name name position, rfl, rfl, printable.spells⟩
  | negate operand position =>
      obtain ⟨phrase, writes⟩ := (derives_text operand printable).enclosed .primary
      change Level.signed.Derives _ _ _
      refine ⟨.negated position phrase, ?_, ?_, writes.spells.minus⟩
      · rw [Phrase.tree, writes.tree_eq]
      · rw [Phrase.nesting, writes.nesting_eq, nesting]
  | binary operator left right position =>
      obtain ⟨leftPrintable, rightPrintable⟩ := printable
      have leftDerives := (derives_text left leftPrintable).enclosed operator.leftLevel
      have rightDerives := (derives_text right rightPrintable).enclosed operator.rightLevel
      exact leftDerives.operation position rightDerives
  | call name arguments position =>
      obtain ⟨named, nonempty, allPrintable⟩ := printable
      have isIdentifier : IsIdentifier name := by
        rcases named with isIdentifier | ⟨function, rfl⟩
        · exact isIdentifier
        · exact function.isIdentifier_name
      obtain ⟨first, others, writes⟩ := exists_arguments arguments nonempty allPrintable
      obtain ⟨head, kindEq, calledEq⟩ := CallHead.exists_ofWord name
      change Level.primary.Derives _ _ _
      refine ⟨.call head position .start first others .start, ?_, ?_, ?_⟩
      · rw [Phrase.tree, calledEq, writes.trees_eq]
      · rw [Phrase.nesting, writes.nesting_eq, nesting]
      · intro rest clear
        have front : IsClear ('(' :: ([','].intercalate (textsOfAll write arguments) ++ [')']) ++
          rest) := rfl
        have spelling := (isIdentifier.spells _ front).append
          (writes.spells.parentheses rest clear)
        simpa [Phrase.yield, kindEq, text] using spelling

theorem exists_arguments (sources : List Expression) (nonempty : sources ≠ [])
    (printable : AllPrintable write sources) :
    ∃ first others, Arguments.Writes first others
      ([','].intercalate (textsOfAll write sources)) sources (nestingOfAll sources) := by
  cases sources with
  | nil => exact absurd rfl nonempty
  | cons source more =>
      obtain ⟨sourcePrintable, morePrintable⟩ := printable
      obtain ⟨first, writes⟩ := (derives_text source sourcePrintable).loosest
      cases more with
      | nil =>
          refine ⟨first, .finish, ?_, ?_, ?_⟩
          · rw [Arguments.trees, writes.tree_eq]
          · rw [Arguments.nesting, writes.nesting_eq, nestingOfAll, nestingOfAll]
          · simpa [Arguments.yield, textsOfAll] using writes.spells
      | cons next later =>
          obtain ⟨second, others, othersWrite⟩ :=
            exists_arguments (next :: later) (List.cons_ne_nil _ _) morePrintable
          refine ⟨first, .next .start second others, ?_, ?_, ?_⟩
          · rw [Arguments.trees, writes.tree_eq, othersWrite.trees_eq]
          · rw [Arguments.nesting, writes.nesting_eq, othersWrite.nesting_eq,
              nestingOfAll.eq_def (source :: next :: later)]
          · have comma : (',', TokenKind.comma) ∈ TokenKind.symbols := by decide
            have spells := writes.spells.joined comma (by decide) othersWrite.spells
            simpa [Arguments.yield, textsOfAll] using spells

end

end Expression

theorem Sentence.fits_iff (sentence : Sentence) :
    sentence.Fits ↔
      sentence.value.tree.terms ≤ maxTerms ∧ sentence.value.nesting ≤ maxNesting := by
  constructor
  · intro fits
    exact ⟨fits.terms_le, fits.nesting_le⟩
  · rintro ⟨few, shallow⟩
    exact ⟨few, shallow⟩

theorem Joint.isSymbol (joint : Joint) :
    (joint.character, TokenKind.separator) ∈ TokenKind.symbols ∧ joint.character ≠ '/' := by
  cases joint <;> decide

namespace Statement

variable {write : Sample → Numeral}

theorem exists_sentence {statement : Statement} (printable : statement.IsPrintable write) :
    ∃ sentence : Sentence, sentence.tree = statement ∧
      (sentence.Fits ↔ statement.KeepsLimits) ∧
      Spells (statement.text write) (sentence.yield.map Token.kind) := by
  cases statement with
  | assign target value position =>
      obtain ⟨isName, valuePrintable⟩ := printable
      obtain ⟨phrase, writes⟩ := (value.derives_text valuePrintable).loosest
      refine ⟨.assignment target position .start phrase, ?_, ?_, ?_⟩
      · rw [Sentence.tree, writes.tree_eq]
      · rw [Sentence.fits_iff, Sentence.value, writes.tree_eq, writes.nesting_eq, KeepsLimits]
      · have equals : ('=', TokenKind.equals) ∈ TokenKind.symbols := by decide
        have nonempty : phrase.yield.map Token.kind ≠ [] := by
          simpa using phrase.yield_ne_nil
        exact isName.spells.operation equals writes.spells nonempty
  | bare value =>
      obtain ⟨phrase, writes⟩ := (value.derives_text printable).loosest
      refine ⟨.bare phrase, ?_, ?_, writes.spells⟩
      · rw [Sentence.tree, writes.tree_eq]
      · rw [Sentence.fits_iff, Sentence.value, writes.tree_eq, writes.nesting_eq, KeepsLimits]

theorem exists_script {statements : List Statement}
    (printable : ∀ statement ∈ statements, statement.IsPrintable write) (joint : Nat → Joint) :
    ∃ script : Script, script.trees = statements ∧
      ((∀ sentence ∈ script.sentences, sentence.Fits) ↔
        ∀ statement ∈ statements, statement.KeepsLimits) ∧
      Spells (textOfAll write joint statements) (script.yield.map Token.kind) := by
  induction statements with
  | nil =>
      refine ⟨.finish, rfl, ⟨nofun, nofun⟩, ?_⟩
      intro rest _
      exact ⟨[], rfl, rfl, .none rest⟩
  | cons statement others ih =>
      rw [List.forall_mem_cons] at printable
      obtain ⟨sentence, treeEq, fits, spells⟩ := exists_sentence printable.1
      obtain ⟨script, treesEq, scriptFits, scriptSpells⟩ := ih printable.2
      cases others with
      | nil =>
          refine ⟨.last sentence, congrArg ([·]) treeEq, ?_, spells⟩
          rw [Script.sentences, List.forall_mem_singleton, List.forall_mem_singleton, fits]
      | cons next behind =>
          obtain ⟨member, noSlash⟩ := (joint behind.length).isSymbol
          refine ⟨.sentence sentence .start script, ?_, ?_, ?_⟩
          · rw [Script.trees, Script.sentences, List.map_cons, treeEq]
            exact congrArg _ treesEq
          · rw [Script.sentences, List.forall_mem_cons, List.forall_mem_cons, fits, scriptFits]
          · have both := spells.joined member noSlash scriptSpells
            simpa [Script.yield, textOfAll] using both

/-- A statement with the positions in it left out. -/
def unplaced : Statement → Statement :=
  Statement.moved (fun _ => .start)

end Statement

theorem Piece.map_kind_tokens (before : List Char) (pieces : List Piece) :
    (tokens before pieces).map Token.kind = pieces.map Piece.kind := by
  induction pieces generalizing before with
  | nil => rfl
  | cons piece others ih => rw [tokens, List.map_cons, List.map_cons, ih]

/-- Tokens of the same kinds are read as the same statements, apart from their positions. -/
theorem TokenStream.statements_of_kinds {first second : List Token} {statements : List Statement}
    {secondStop : Position} (kindsEq : first.map Token.kind = second.map Token.kind)
    (success : TokenStream.statements ⟨second, secondStop⟩ = .ok statements) (stop : Position) :
    ∃ read, TokenStream.statements ⟨first, stop⟩ = .ok read ∧
      read.map Statement.unplaced = statements.map Statement.unplaced := by
  have unplacedEq : ∀ tokens : List Token, tokens.map (Token.moved (fun _ => .start)) =
      (tokens.map Token.kind).map (fun kind => ⟨kind, .start⟩) := by
    intro tokens
    rw [List.map_map]
    rfl
  have streamEq : moved (fun _ => .start) ⟨first, stop⟩ =
      moved (fun _ => .start) ⟨second, secondStop⟩ := by
    rw [moved, moved, unplacedEq, unplacedEq, kindsEq]
  have readEq := congrArg TokenStream.statements streamEq
  rw [statements_moved, statements_moved, success] at readEq
  cases outcome : TokenStream.statements ⟨first, stop⟩ with
  | error failure =>
      rw [outcome] at readEq
      cases readEq
  | ok read =>
      rw [outcome] at readEq
      exact ⟨read, rfl, Except.ok.inj readEq⟩

/-- The tokens of a printed text are of the kinds that its statements are spelled with. -/
theorem TokenStream.exists_ofText {text : String} {kinds : List TokenKind}
    (spells : Spells text.toList kinds) :
    ∃ stream, ofText text = .ok stream ∧ stream.tokens.map Token.kind = kinds := by
  obtain ⟨pieces, sourcesEq, rfl, arePieces⟩ := spells [] rfl
  have isRead : IsReadAs text.toList pieces [] [] := by
    refine ⟨?_, arePieces, .blanks nofun⟩
    rw [sourcesEq, List.append_nil, List.append_nil]
  exact ⟨_, ofText_of_isReadAs isRead, Piece.map_kind_tokens [] pieces⟩

section Printed

variable {write : Sample → Numeral} {statements : List Statement}
  (printable : ∀ statement ∈ statements, statement.IsPrintable write) (joint : Nat → Joint)

include printable

/-- The tokens of printed statements are those of a derivation of them, apart from positions. -/
theorem exists_derivation :
    ∃ (stream : TokenStream) (script : Script),
      TokenStream.ofText (printed write joint statements) = .ok stream ∧
      stream.tokens.map Token.kind = script.yield.map Token.kind ∧ script.trees = statements ∧
      ((∀ sentence ∈ script.sentences, sentence.Fits) ↔
        ∀ statement ∈ statements, statement.KeepsLimits) := by
  obtain ⟨script, treesEq, fits, spells⟩ := Statement.exists_script printable joint
  have textEq : (printed write joint statements).toList =
      Statement.textOfAll write joint statements := String.toList_ofList
  rw [← textEq] at spells
  obtain ⟨stream, read, kindsEq⟩ := TokenStream.exists_ofText spells
  exact ⟨stream, script, read, kindsEq, treesEq, fits⟩

/--
The text of statements is read, and what is read are these statements, apart from
their positions.
-/
theorem parse_printed (limits : ∀ statement ∈ statements, statement.KeepsLimits) :
    ∃ read, parse (printed write joint statements) = .ok read ∧
      read.map Statement.unplaced = statements.map Statement.unplaced := by
  obtain ⟨stream, script, tokensRead, kindsEq, treesEq, fits⟩ :=
    exists_derivation printable joint
  have success : TokenStream.statements ⟨script.yield, .start⟩ = .ok statements := by
    rw [← treesEq]
    exact TokenStream.statements_yield (fits.mpr limits)
  obtain ⟨read, readEq, sameStatements⟩ :=
    TokenStream.statements_of_kinds kindsEq success stream.stop
  refine ⟨read, ?_, sameStatements⟩
  rw [parse, tokensRead]
  simp only [readEq]

end Printed

/-- Parentheses on the left of a power and on the right of a quotient, and a call. -/
def powerAndFilter : List Statement :=
  let place := Position.start
  let x := Expression.reference "x" place
  let difference := Expression.binary .subtract x (.literal 2 place) place
  let exponent := Expression.binary .power (.negate x place) (.literal ⟨0x3F000000⟩ place) place
  let quotient := Expression.binary .divide x (.binary .multiply x (.literal 2 place) place) place
  [.assign "y1" (.binary .power difference exponent place) place,
    .bare (.call "fir" [quotient, .negate (.negate x place) place] place)]

/-- The shortest numerals can be taken to write numbers. -/
theorem parse_printed_powerAndFilter :
    ∃ read, parse "y1 = (x - 2) ^ -x ^ 0.5;fir(x / (x * 2),-(-x))" = .ok read ∧
      read.map Statement.unplaced = powerAndFilter.map Statement.unplaced := by
  let write : Sample → Numeral := fun value => (Numeral.read value.text.toList).1
  have x : IsVariableName "x" :=
    ⟨⟨by decide, by decide, List.all_eq_true.mp (by decide), rfl⟩,
      Builtin.ofName?_eq_none_iff.mp (by decide)⟩
  have target : IsVariableName "y1" :=
    ⟨⟨by decide, by decide, List.all_eq_true.mp (by decide), rfl⟩,
      Builtin.ofName?_eq_none_iff.mp (by decide)⟩
  have two : (write 2).Writes 2 := by
    have numeralEq : write 2 = ⟨['2'], none, none⟩ := by decide +kernel
    have begun : Numeral.Begun ⟨['2'], none, none⟩ :=
      ⟨List.all_eq_true.mp (by decide), nofun, nofun⟩
    rw [numeralEq]
    exact ⟨⟨begun, by decide, nofun⟩, by decide +kernel⟩
  have half : (write ⟨0x3F000000⟩).Writes ⟨0x3F000000⟩ := by
    have numeralEq : write ⟨0x3F000000⟩ = ⟨['0'], some ['5'], none⟩ := by decide +kernel
    have begun : Numeral.Begun ⟨['0'], some ['5'], none⟩ := by
      refine ⟨List.all_eq_true.mp (by decide), ?_, nofun⟩
      rintro _ ⟨rfl⟩
      exact List.all_eq_true.mp (by decide)
    rw [numeralEq]
    exact ⟨⟨begun, by decide, nofun⟩, by decide +kernel⟩
  have printable : ∀ statement ∈ powerAndFilter, statement.IsPrintable write := by
    refine List.forall_mem_cons.mpr ⟨⟨target, ⟨x, two⟩, x, half⟩, ?_⟩
    refine List.forall_mem_singleton.mpr ⟨Or.inr ⟨.fir, rfl⟩, List.cons_ne_nil _ _, ?_⟩
    exact ⟨⟨x, x, two⟩, x, trivial⟩
  have limits : ∀ statement ∈ powerAndFilter, statement.KeepsLimits := by
    refine List.forall_mem_cons.mpr ⟨⟨by decide, by decide⟩, ?_⟩
    exact List.forall_mem_singleton.mpr ⟨by decide, by decide⟩
  have textEq : printed write (fun _ => .semicolon) powerAndFilter =
      "y1 = (x - 2) ^ -x ^ 0.5;fir(x / (x * 2),-(-x))" := by
    decide +kernel
  rw [← textEq]
  exact parse_printed printable (fun _ => .semicolon) limits

end SignalPatch
