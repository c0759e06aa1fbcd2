import DiceNotation.Diagnostic

/-! # Cutting a text into tokens

`lex` reads a text from left to right.  At each position it takes the longest token that
starts there (`lexeme`), steps over layout, and turns every other character into an `unknown`
token of its own.  The last token is `endOfInput`, at the position behind the text.

`scan` recurses on the characters; the number of characters that still belong to the token
found last is counted down in `skip`.  It goes on behind an unknown character in the same pass.
To lex the rest of the text anew there, with its positions shifted, finds the same tokens
(`lex_restart` in Proofs/Lexing). -/

namespace DiceNotation.Lexer

/-- Layout between tokens: space, tab, line feed, carriage return and form feed. -/
def isLayout (c : Char) : Bool :=
  c == ' ' || c == '\t' || c == '\n' || c == '\r' || c == '\x0c'

/-- The kind of an operator or punctuation mark of one character. -/
def symbol? : Char → Option TokenKind
  | '+' => some .plus
  | '-' => some .minus
  | '*' => some .asterisk
  | '/' => some .slash
  | '%' => some .percent
  | '=' => some .equals
  | '>' => some .greater
  | '<' => some .less
  | '(' => some .parenthesisOpen
  | ')' => some .parenthesisClose
  | '{' => some .braceOpen
  | '}' => some .braceClose
  | ',' => some .comma
  | '!' => some .exclamation
  | _ => none

/-- Kind and length of the longest token at the start of a text.  Numerals are runs of ASCII
    digits and words runs of ASCII letters. -/
def lexeme : List Char → Option (TokenKind × Nat)
  | '*' :: '*' :: _ => some (.doubleAsterisk, 2)
  | '>' :: '=' :: _ => some (.greaterOrEqual, 2)
  | '<' :: '=' :: _ => some (.lessOrEqual, 2)
  | '.' :: '.' :: '.' :: _ => some (.ellipsis, 3)
  | c :: rest =>
    if c.isDigit then some (.integer, 1 + (rest.takeWhile Char.isDigit).length)
    else if c.isAlpha then some (.identifier, 1 + (rest.takeWhile Char.isAlpha).length)
    else (symbol? c).map fun kind => (kind, 1)
  | [] => none

/-- The tokens of a text that starts at `position`, after `skip` characters. -/
def scan : (skip position : Nat) → List Char → List Token
  | _, position, [] => [⟨.endOfInput, position, ""⟩]
  | skip + 1, position, _ :: rest => scan skip (position + 1) rest
  | 0, position, c :: rest =>
    if isLayout c then scan 0 (position + 1) rest
    else
      match lexeme (c :: rest) with
      | some (kind, length) =>
        ⟨kind, position, String.ofList ((c :: rest).take length)⟩ ::
          scan (length - 1) (position + 1) rest
      | none => ⟨.unknown, position, String.ofList [c]⟩ :: scan 0 (position + 1) rest

/-- The diagnostic of an unknown token. -/
def diagnostic? (token : Token) : Option Diagnostic :=
  if token.kind = .unknown then
    token.text.toList.head?.map fun c => ⟨.unknownCharacter c, token.position⟩
  else none

end DiceNotation.Lexer

namespace DiceNotation

/-- The tokens of a text, up to and including the end of the input. -/
def lex (text : String) : List Token :=
  Lexer.scan 0 0 text.toList

/-- One diagnostic for each unknown token, in order. -/
def lexDiagnostics (tokens : List Token) : List Diagnostic :=
  tokens.filterMap Lexer.diagnostic?

end DiceNotation
