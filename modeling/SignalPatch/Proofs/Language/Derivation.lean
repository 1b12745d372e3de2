import SignalPatch.Language.Parser

/-!
# Derivations in the grammar

A derivation of the grammar of patches is a tree that has the derived tokens at
its leaves, each with its position.  It determines the syntax tree, which keeps
neither parentheses nor commas, and how deeply its phrases are nested.

    patch      = (statement? separator)* statement?
    statement  = name "=" expression | expression
    expression = term (("+" | "-") term)*
    term       = factor (("*" | "/" | "%") factor)*
    factor     = "-"? primary ("^" factor)?
    primary    = number | name | call | "(" expression ")"
    call       = (name | function) "(" expression ("," expression)* ")"
-/

namespace SignalPatch

/-- The levels of precedence, where a signed primary is the part of a factor before `^`. -/
inductive Level where
  | primary | signed | factor | term | expression
deriving DecidableEq

namespace Level

/-- The operators that chain operands of a level. -/
def operator? : Level → TokenKind → Option BinaryOperator
  | factor, .star => some .multiply
  | factor, .slash => some .divide
  | factor, .percent => some .remainder
  | term, .plus => some .add
  | term, .minus => some .subtract
  | _, _ => none

end Level

/-- What stands before the parenthesis of a call. -/
inductive CallHead where
  | name (text : String)
  | builtin (function : Builtin)

namespace CallHead

def kind : CallHead → TokenKind
  | name text => .name text
  | builtin function => .builtin function

def called : CallHead → String
  | name text => text
  | builtin function => function.name

end CallHead

mutual

/-- A derivation of a phrase of a level. -/
inductive Phrase : Level → Type where
  | number (value : Sample) (position : Position) : Phrase .primary
  | name (text : String) (position : Position) : Phrase .primary
  | call (head : CallHead) (position opening : Position) (first : Phrase .expression)
      (others : Arguments) (closing : Position) : Phrase .primary
  | parentheses (opening : Position) (inner : Phrase .expression) (closing : Position) :
      Phrase .primary
  | unsigned (operand : Phrase .primary) : Phrase .signed
  | negated (position : Position) (operand : Phrase .primary) : Phrase .signed
  | plain (base : Phrase .signed) : Phrase .factor
  | power (base : Phrase .signed) (position : Position) (exponent : Phrase .factor) :
      Phrase .factor
  | term (first : Phrase .factor) (others : Chain .factor) : Phrase .term
  | expression (first : Phrase .term) (others : Chain .term) : Phrase .expression

/-- Further operands of a level, each behind an operator. -/
inductive Chain : Level → Type where
  | finish {level : Level} : Chain level
  | join {level : Level} (symbol : TokenKind) (operator : BinaryOperator)
      (joins : level.operator? symbol = some operator) (position : Position)
      (operand : Phrase level) (others : Chain level) : Chain level

/-- Further arguments of a call, each behind a comma. -/
inductive Arguments : Type where
  | finish : Arguments
  | next (comma : Position) (argument : Phrase .expression) (others : Arguments) : Arguments

end

mutual

def Phrase.yield {level : Level} : Phrase level → List Token
  | .number value position => [⟨.number value, position⟩]
  | .name text position => [⟨.name text, position⟩]
  | .call head position opening first others closing =>
      ⟨head.kind, position⟩ :: ⟨.openParenthesis, opening⟩ ::
        (first.yield ++ others.yield ++ [⟨.closeParenthesis, closing⟩])
  | .parentheses opening inner closing =>
      ⟨.openParenthesis, opening⟩ :: (inner.yield ++ [⟨.closeParenthesis, closing⟩])
  | .unsigned operand => operand.yield
  | .negated position operand => ⟨.minus, position⟩ :: operand.yield
  | .plain base => base.yield
  | .power base position exponent => base.yield ++ ⟨.caret, position⟩ :: exponent.yield
  | .term first others => first.yield ++ others.yield
  | .expression first others => first.yield ++ others.yield

def Chain.yield {level : Level} : Chain level → List Token
  | .finish => []
  | .join symbol _ _ position operand others =>
      ⟨symbol, position⟩ :: (operand.yield ++ others.yield)

def Arguments.yield : Arguments → List Token
  | .finish => []
  | .next comma argument others => ⟨.comma, comma⟩ :: (argument.yield ++ others.yield)

end

mutual

/-- The syntax tree of a phrase: chains group to the left, powers to the right. -/
def Phrase.tree {level : Level} : Phrase level → Expression
  | .number value position => .literal value position
  | .name text position => .reference text position
  | .call head position _ first others _ =>
      .call head.called (first.tree :: others.trees) position
  | .parentheses _ inner _ => inner.tree
  | .unsigned operand => operand.tree
  | .negated position operand => .negate operand.tree position
  | .plain base => base.tree
  | .power base position exponent => .binary .power base.tree exponent.tree position
  | .term first others => others.tree first.tree
  | .expression first others => others.tree first.tree

/-- The syntax tree of further operands behind a left one. -/
def Chain.tree {level : Level} (left : Expression) : Chain level → Expression
  | .finish => left
  | .join _ operator _ position operand others =>
      others.tree (.binary operator left operand.tree position)

def Arguments.trees : Arguments → List Expression
  | .finish => []
  | .next _ argument others => argument.tree :: others.trees

end

mutual

/-- How many parentheses, argument lists, negations and exponents enclose a point at most. -/
def Phrase.nesting {level : Level} : Phrase level → Nat
  | .number .. | .name .. => 0
  | .call _ _ _ first others _ => max first.nesting others.nesting + 1
  | .parentheses _ inner _ => inner.nesting + 1
  | .unsigned operand => operand.nesting
  | .negated _ operand => operand.nesting + 1
  | .plain base => base.nesting
  | .power base _ exponent => max base.nesting (exponent.nesting + 1)
  | .term first others => max first.nesting others.nesting
  | .expression first others => max first.nesting others.nesting

def Chain.nesting {level : Level} : Chain level → Nat
  | .finish => 0
  | .join _ _ _ _ operand others => max operand.nesting others.nesting

def Arguments.nesting : Arguments → Nat
  | .finish => 0
  | .next _ argument others => max argument.nesting others.nesting

end

mutual

def Phrase.terms {level : Level} : Phrase level → Nat
  | .number .. | .name .. => 1
  | .call _ _ _ first others _ => first.terms + others.terms + 1
  | .parentheses _ inner _ => inner.terms
  | .unsigned operand => operand.terms
  | .negated _ operand => operand.terms + 1
  | .plain base => base.terms
  | .power base _ exponent => base.terms + exponent.terms + 1
  | .term first others => first.terms + others.terms
  | .expression first others => first.terms + others.terms

def Chain.terms {level : Level} : Chain level → Nat
  | .finish => 0
  | .join _ _ _ _ operand others => operand.terms + 1 + others.terms

def Arguments.terms : Arguments → Nat
  | .finish => 0
  | .next _ argument others => argument.terms + others.terms

end

mutual

theorem Phrase.terms_tree {level : Level} (phrase : Phrase level) :
    phrase.tree.terms = phrase.terms := by
  cases phrase with
  | number | name => rfl
  | call head position opening first others closing =>
      simp only [Phrase.tree, Phrase.terms, Expression.terms, Expression.termsOfAll,
        first.terms_tree, others.terms_trees]
  | parentheses opening inner closing => exact inner.terms_tree
  | unsigned operand => exact operand.terms_tree
  | negated position operand =>
      simp only [Phrase.tree, Phrase.terms, Expression.terms, operand.terms_tree]
  | plain base => exact base.terms_tree
  | power base position exponent =>
      simp only [Phrase.tree, Phrase.terms, Expression.terms, base.terms_tree, exponent.terms_tree]
  | term first others =>
      simp only [Phrase.tree, Phrase.terms, others.terms_tree, first.terms_tree]
  | expression first others =>
      simp only [Phrase.tree, Phrase.terms, others.terms_tree, first.terms_tree]

theorem Chain.terms_tree {level : Level} (left : Expression) :
    ∀ chain : Chain level, (chain.tree left).terms = left.terms + chain.terms
  | .finish => rfl
  | .join symbol operator joins position operand others => by
      have othersEq := Chain.terms_tree (.binary operator left operand.tree position) others
      have operandEq := operand.terms_tree
      simp only [Chain.tree, Chain.terms, othersEq, Expression.terms, operandEq]
      omega

theorem Arguments.terms_trees (arguments : Arguments) :
    Expression.termsOfAll arguments.trees = arguments.terms := by
  cases arguments with
  | finish => rfl
  | next comma argument others =>
      simp only [Arguments.trees, Arguments.terms, Expression.termsOfAll, argument.terms_tree,
        others.terms_trees]

end

inductive Sentence where
  | assignment (target : String) (position equals : Position) (value : Phrase .expression)
  | bare (value : Phrase .expression)

namespace Sentence

def value : Sentence → Phrase .expression
  | assignment _ _ _ value | bare value => value

def yield : Sentence → List Token
  | assignment target position equals value =>
      ⟨.name target, position⟩ :: ⟨.equals, equals⟩ :: value.yield
  | bare value => value.yield

def tree : Sentence → Statement
  | assignment target position _ value => .assign target value.tree position
  | bare value => .bare value.tree

end Sentence

/-- A derivation of a patch: statements and the separators between and around them. -/
inductive Script where
  | finish
  | separator (position : Position) (others : Script)
  | last (body : Sentence)
  | sentence (body : Sentence) (separator : Position) (others : Script)

namespace Script

def yield : Script → List Token
  | finish => []
  | separator position others => ⟨.separator, position⟩ :: others.yield
  | last body => body.yield
  | sentence body position others =>
      body.yield ++ ⟨.separator, position⟩ :: others.yield

def sentences : Script → List Sentence
  | finish => []
  | separator _ others => others.sentences
  | last body => [body]
  | sentence body _ others => body :: others.sentences

def trees (script : Script) : List Statement :=
  script.sentences.map Sentence.tree

end Script

end SignalPatch
