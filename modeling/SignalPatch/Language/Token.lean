import SignalPatch.Language.Builtin
import SignalPatch.Language.Position

/-!
# Tokens

Patch text is a stream of tokens.  A newline and a semicolon are the same
token, which separates statements.
-/

namespace SignalPatch

/-- What a token is, apart from where it stands. -/
inductive TokenKind where
  | name (text : String)
  | number (value : Sample)
  | builtin (function : Builtin)
  | plus | minus | star | slash | caret | percent
  | openParenthesis | closeParenthesis | comma | equals
  | separator
deriving DecidableEq

/-- A token with the position of its first character. -/
structure Token where
  kind : TokenKind
  position : Position
deriving DecidableEq

/-- The tokens of a text, and the position of its end. -/
structure TokenStream where
  tokens : List Token
  stop : Position
deriving DecidableEq

namespace TokenKind

/-- A token in the words of a fault message. -/
def describe : TokenKind → String
  | name text => "identifier '" ++ text ++ "'"
  | number value => "number " ++ value.text
  | builtin function => "function '" ++ function.name ++ "'"
  | plus => "'+'"
  | minus => "'-'"
  | star => "'*'"
  | slash => "'/'"
  | caret => "'^'"
  | percent => "'%'"
  | openParenthesis => "'('"
  | closeParenthesis => "')'"
  | comma => "','"
  | equals => "'='"
  | separator => "end of statement"

/-- What comes next in the words of a fault message, where nothing is the end. -/
def describeNext : Option TokenKind → String
  | some kind => kind.describe
  | none => "end of input"

/-- The token of a word: a function if the word names one. -/
def ofWord (word : String) : TokenKind :=
  match Builtin.ofName? word with
  | some function => builtin function
  | none => name word

end TokenKind

end SignalPatch
