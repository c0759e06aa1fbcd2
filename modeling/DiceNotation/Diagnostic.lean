import DiceNotation.Token

/-! # Diagnostics

What the lexer and the parser have to say about a text.  Problems are collected rather than
thrown, so that one pass reports all of them.  A `Diagnostic` keeps its cause; its message,
code and phase are functions of that. -/

namespace DiceNotation

/-- The causes of diagnostics. -/
inductive DiagnosticCause where
  /-- A character that starts no token. -/
  | unknownCharacter (c : Char)
  /-- A token other than the expected one. -/
  | unexpectedToken (found : Token) (expected : TokenKind)
  /-- A word in the place of the `d` of a dice roll. -/
  | unknownDiceType (word : String)
  /-- Something follows the expression. -/
  | trailingInput (found : Token)
deriving DecidableEq, Repr

/-- A problem in a text and the position it refers to. -/
structure Diagnostic where
  cause : DiagnosticCause
  position : Int
deriving DecidableEq, Repr

namespace Diagnostic

/-- The part of the program that found the problem. -/
inductive Phase where
  | lexer
  | parser
deriving DecidableEq, Repr

/-- The name of a phase. -/
def Phase.name : Phase → String
  | lexer => "lexer"
  | parser => "parser"

/-- Every diagnostic is an error. -/
def severity : String := "error"

/-- The message of a diagnostic. -/
def message (d : Diagnostic) : String :=
  match d.cause with
  | .unknownCharacter c => "Unknown character '" ++ c.toString ++ s!"' at position {d.position}."
  | .unexpectedToken found expected =>
    "Unexpected " ++ found.describe ++ s!" at position {d.position}; expected {expected.name}."
  | .unknownDiceType word => "Unknown dice type '" ++ word ++ s!"' at position {d.position}."
  | .trailingInput found =>
    "Unexpected " ++ found.describe ++ s!" at position {d.position}; expected end of input."

/-- The stable code of a diagnostic. -/
def code (d : Diagnostic) : String :=
  match d.cause with
  | .unknownCharacter _ => "E-LEX-UNKNOWN-CHAR"
  | .unexpectedToken .. => "E-PARSE-UNEXPECTED-TOKEN"
  | .unknownDiceType _ => "E-PARSE-DICE-TYPE"
  | .trailingInput _ => "E-PARSE-TRAILING-INPUT"

/-- The phase of a diagnostic. -/
def phase (d : Diagnostic) : Phase :=
  match d.cause with
  | .unknownCharacter _ => .lexer
  | _ => .parser

end Diagnostic

end DiceNotation
