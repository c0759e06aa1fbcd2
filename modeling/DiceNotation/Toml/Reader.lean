/-! # Reading characters

A `Reader` step takes characters from the front of a text or fails.  It fails for two reasons:
the text is not in the format, or it holds an integer with more digits than are read. -/

namespace DiceNotation.Toml

/-- Why a document cannot be read. -/
inductive ReadError where
  /-- The text is not in the format. -/
  | malformed
  /-- A decimal integer has too many digits. -/
  | tooManyDigits
deriving DecidableEq, Repr

/-- A step that reads from the front of a text. -/
abbrev Reader := StateT (List Char) (Except ReadError)

namespace Reader

/-- The text is not in the format. -/
def fail : Reader α := throw .malformed

/-- The next character, which is left. -/
def peek : Reader (Option Char) := return (← get).head?

/-- How many characters are left. -/
def remaining : Reader Nat := return (← get).length

/-- Read the characters up to the first one that is not of the given kind. -/
def takeWhile (p : Char → Bool) : Reader (List Char) := do
  let (taken, rest) := (← get).span p
  set rest
  return taken

/-- Step over the characters up to the first one that is not of the given kind. -/
def skipWhile (p : Char → Bool) : Reader Unit := do
  let _ ← takeWhile p

/-- Read the given characters if they come next. -/
def accept (expected : String) : Reader Bool := do
  let text ← get
  if expected.toList.isPrefixOf text then
    set (text.drop expected.length)
    return true
  else return false

/-- Read the first of the given texts that comes next. -/
def acceptAny : List String → Reader Bool
  | [] => return false
  | expected :: others => do
    if ← accept expected then return true else acceptAny others

/-- Read the given characters, which have to come next. -/
def expect (expected : String) : Reader Unit := do
  if !(← accept expected) then fail

/-- Read what a function finds at the front of the text, if it finds anything. -/
def attempt (find : List Char → Option (α × List Char)) : Reader (Option α) := do
  match find (← get) with
  | none => return none
  | some (a, rest) =>
    set rest
    return some a

/-- Spaces and tabs. -/
def isSpace (c : Char) : Bool := c == ' ' || c == '\t'

/-- Spaces, tabs and line feeds. -/
def isSpaceOrNewline (c : Char) : Bool := isSpace c || c == '\n'

/-- The control characters but the tab; they are allowed nowhere in a line. -/
def isControl (c : Char) : Bool := (c.toNat < 32 && c != '\t') || c.toNat == 127

/-- Step over spaces and tabs. -/
def spaces : Reader Unit := skipWhile isSpace

/-- Step over a comment if there is one; the end of the line is left. -/
def comment : Reader Unit := do
  if ← accept "#" then
    if (← takeWhile (· != '\n')).any isControl then fail

/-- Step over blanks, line ends and comments, at most `steps` comments. -/
def layoutWithin : (steps : Nat) → Reader Unit
  | 0 => skipWhile isSpaceOrNewline
  | steps + 1 => do
    skipWhile isSpaceOrNewline
    if (← peek) = some '#' then
      comment
      layoutWithin steps

/-- Step over blanks, line ends and comments. -/
def layout : Reader Unit := do layoutWithin (← remaining)

end Reader

end DiceNotation.Toml
