/-! # Tokens

The smallest pieces of a dice expression: numerals, words, operators and punctuation, each
with its text and the position of its first character.  The end of the input is a token of
its own, and so is every character that belongs to no other token. -/

namespace DiceNotation

/-- The kinds of tokens. -/
inductive TokenKind where
  | integer
  | identifier
  | plus
  | minus
  | asterisk
  | slash
  | percent
  | doubleAsterisk
  | equals
  | greater
  | greaterOrEqual
  | less
  | lessOrEqual
  | parenthesisOpen
  | parenthesisClose
  | braceOpen
  | braceClose
  | comma
  | exclamation
  | ellipsis
  | endOfInput
  | unknown
deriving DecidableEq, Repr, Inhabited

namespace TokenKind

/-- Every kind of token. -/
def all : List TokenKind :=
  [integer, identifier, plus, minus, asterisk, slash, percent, doubleAsterisk, equals, greater,
    greaterOrEqual, less, lessOrEqual, parenthesisOpen, parenthesisClose, braceOpen, braceClose,
    comma, exclamation, ellipsis, endOfInput, unknown]

/-- The name of a kind, as it stands in diagnostics. -/
def name : TokenKind → String
  | integer => "Integer"
  | identifier => "Identifier"
  | plus => "Plus"
  | minus => "Minus"
  | asterisk => "Asterisk"
  | slash => "Slash"
  | percent => "Percent"
  | doubleAsterisk => "DoubleAsterisk"
  | equals => "Equals"
  | greater => "Greater"
  | greaterOrEqual => "GreaterOrEqual"
  | less => "Less"
  | lessOrEqual => "LessOrEqual"
  | parenthesisOpen => "ParenthesisOpen"
  | parenthesisClose => "ParenthesisClose"
  | braceOpen => "BraceOpen"
  | braceClose => "BraceClose"
  | comma => "Comma"
  | exclamation => "Exclamation"
  | ellipsis => "Ellipsis"
  | endOfInput => "EndOfInput"
  | unknown => "Unknown"

/-- The kind with the given name. -/
def ofName? (name : String) : Option TokenKind :=
  all.find? (·.name == name)

/-- No kind of token is missing from the list. -/
theorem mem_all (kind : TokenKind) : kind ∈ all := by
  cases kind <;> decide

end TokenKind

/-- A piece of an expression with its place in the text, counted in characters. -/
structure Token where
  kind : TokenKind
  position : Int
  text : String
deriving DecidableEq, Repr, Inhabited

namespace Token

/-- The number of characters of a token. -/
def length (token : Token) : Nat := token.text.length

/-- How a diagnostic names a token. -/
def describe (token : Token) : String :=
  if token.kind = .endOfInput then "end of input"
  else s!"{token.kind.name} '" ++ token.text ++ "'"

end Token

end DiceNotation
