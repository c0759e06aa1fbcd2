import DiceNotation.Text.Blank
import DiceNotation.Text.Digit

/-! # Integer numerals

`Numeral.read` reads an integer written in decimal: blanks around it, a sign in front and
single underscores between digits are accepted, and the digits of every script count.  A
numeral of more than `Numeral.maxDigits` digits is refused, leading zeros included. -/

namespace DiceNotation.Numeral

/-- Why a text is not read as an integer. -/
inductive ReadError where
  /-- The text is no numeral. -/
  | malformed
  /-- The numeral has too many digits. -/
  | tooManyDigits
deriving DecidableEq, Repr

/-- The longest numeral that is read. -/
def maxDigits : Nat := 4300

/-- The number with these decimal digits, most significant first. -/
def ofDigits (digits : List Nat) : Nat :=
  digits.foldl (fun n d => 10 * n + d) 0

/-- The values of digits that may be separated by single underscores. -/
def digits? : List Char → Option (List Nat)
  | [] => none
  | [c] => (Text.digit? c).map ([·])
  | c :: '_' :: rest =>
    match Text.digit? c, digits? rest with
    | some d, some ds => some (d :: ds)
    | _, _ => none
  | c :: rest =>
    match Text.digit? c, digits? rest with
    | some d, some ds => some (d :: ds)
    | _, _ => none

/-- Take off blanks on both sides. -/
def trim (text : List Char) : List Char :=
  ((text.dropWhile Text.isBlank).reverse.dropWhile Text.isBlank).reverse

/-- Take off a sign; the flag says whether it was a minus. -/
def splitSign : List Char → Bool × List Char
  | '-' :: rest => (true, rest)
  | '+' :: rest => (false, rest)
  | text => (false, text)

/-- Read an integer. -/
def read (text : String) : Except ReadError Int :=
  let (negative, unsigned) := splitSign (trim text.toList)
  match digits? unsigned with
  | none => .error .malformed
  | some digits =>
    if maxDigits < digits.length then .error .tooManyDigits
    else
      let n := ofDigits digits
      .ok (if negative then -n else n)

end DiceNotation.Numeral
