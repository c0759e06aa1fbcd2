import DiceNotation.Node.Basic
import DiceNotation.Number.Numeral
import DiceNotation.Token.Lexer
import DiceNotation.Token.Stream

/-! # The parser's state

A parser step reads from a token stream and collects diagnostics.  It fails only on a numeral
that cannot be read; the state at that moment is kept, as every problem before it has been
recorded and every token before it has been read.

The rules call each other as deeply as a text is nested.  The call stack is taken to be unbounded:
no depth is too great, and a recursion limit of the machine that runs the parser is not part of the
model. -/

namespace DiceNotation

/-- What a parser has still to read and what it has found wrong so far. -/
structure ParserState where
  stream : TokenStream
  diagnostics : List Diagnostic
deriving Inhabited

/-- A parser step. -/
abbrev ParseM := EStateM Numeral.ReadError ParserState

namespace ParserState

/-- Ready to read a text; the unknown characters in it are already recorded. -/
def ofText (text : String) : ParserState :=
  let tokens := lex text
  ⟨.ofTokens tokens, lexDiagnostics tokens⟩

/-- Ready to read a list of tokens. -/
def ofTokens (tokens : List Token) : ParserState := ⟨.ofTokens tokens, []⟩

end ParserState

namespace Parser

/-- The next token. -/
def peek : ParseM Token := return (← get).stream.next

/-- The kind of the next token. -/
def nextKind : ParseM TokenKind := return (← peek).kind

/-- Step over the next token. -/
def advance : ParseM Unit := modify fun s => { s with stream := s.stream.advance }

/-- Step over the first `n` characters of the next token. -/
def advanceBy (n : Nat) : ParseM Unit :=
  modify fun s => { s with stream := ((s.stream.split? n).getD s.stream).advance }

/-- How much is left to read. -/
def weight : ParseM Nat := return (← get).stream.weight

/-- Record a diagnostic. -/
def record (cause : DiagnosticCause) (position : Int) : ParseM Unit :=
  modify fun s => { s with diagnostics := s.diagnostics ++ [⟨cause, position⟩] }

/-- Record that a token stands where another one was expected. -/
def unexpected (found : Token) (expected : TokenKind) : ParseM Unit :=
  record (.unexpectedToken found expected) found.position

/-- Read a token of the given kind; if another one is next, record that and leave it. -/
def expect (kind : TokenKind) : ParseM (Option Token) := do
  let token ← peek
  if token.kind = kind then
    advance
    return some token
  else
    unexpected token kind
    return none

/-- The value of a numeral. -/
def numeral (text : String) : ParseM Int :=
  match Numeral.read text with
  | .ok n => pure n
  | .error e => throw e

/-- Read a numeral; zero stands in for a missing one. -/
def integer : ParseM Int := do
  match ← expect .integer with
  | some token => numeral token.text
  | none => return 0

/-- Read a numeral as a literal. -/
def literal : ParseM Node := return .integer (← integer)

/-- Whether a token starts with the given letters. -/
def startsWith (token : Token) (letters : String) : Bool :=
  letters.toList.isPrefixOf token.text.toList

end Parser

end DiceNotation
