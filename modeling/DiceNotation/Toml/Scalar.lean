import DiceNotation.Number.Numeral
import DiceNotation.Toml.Reader
import DiceNotation.Toml.Value

/-! # Strings, numbers, dates and times

The values of a TOML document that hold no other values.  The functions on `List Char` find a
value at the front of a text and give it with the rest of the text; the `Reader` steps fail on
a value that is begun and not finished. -/

namespace DiceNotation.Toml

open Reader

/-! ## Strings -/

/-- The value of a hexadecimal digit. -/
def hexDigit? (c : Char) : Option Nat :=
  if c.isDigit then some (c.toNat - '0'.toNat)
  else if 'a' ≤ c ∧ c ≤ 'f' then some (c.toNat - 'a'.toNat + 10)
  else if 'A' ≤ c ∧ c ≤ 'F' then some (c.toNat - 'A'.toNat + 10)
  else none

/-- Read a character given by `width` hexadecimal digits; surrogates are no characters. -/
def hexCharacter (width : Nat) : Reader Char := do
  let text ← get
  let digits := text.take width
  set (text.drop width)
  match digits.mapM hexDigit? with
  | none => fail
  | some values =>
    let code := values.foldl (fun n d => 16 * n + d) 0
    if digits.length = width ∧ (code < 0xD800 ∨ (0xE000 ≤ code ∧ code < 0x110000)) then
      return Char.ofNat code
    else fail

/-- Read what follows a backslash.  In a string of several lines a backslash at the end of a line
    joins it to the next one that is not blank. -/
def escape (multiline : Bool) : Reader (List Char) := do
  match ← get with
  | [] => fail
  | c :: rest =>
    set rest
    match c with
    | 'b' => return ['\x08']
    | 't' => return ['\t']
    | 'n' => return ['\n']
    | 'f' => return ['\x0c']
    | 'r' => return ['\r']
    | '"' => return ['"']
    | '\\' => return ['\\']
    | 'u' => return [← hexCharacter 4]
    | 'U' => return [← hexCharacter 8]
    | _ =>
      if multiline && isSpaceOrNewline c then
        if c != '\n' then
          spaces
          let ended ← accept "\n"
          if !ended && (← peek).isSome then fail
        skipWhile isSpaceOrNewline
        return []
      else fail

/-- Read a string with escapes up to its closing quotes, in at most `steps` steps. -/
def basicWithin (multiline : Bool) : (steps : Nat) → Reader (List Char)
  | 0 => fail
  | steps + 1 => do
    if ← accept (if multiline then "\"\"\"" else "\"") then return []
    else
      match ← get with
      | [] => fail
      | c :: rest =>
        set rest
        if c = '\\' then
          let first ← escape multiline
          return first ++ (← basicWithin multiline steps)
        else if isControl c && !(multiline && c == '\n') then fail
        else return c :: (← basicWithin multiline steps)

/-- Read a string with escapes; its opening quotes are read already. -/
def basic (multiline : Bool) : Reader String := do
  return String.ofList (← basicWithin multiline ((← remaining) + 1))

/-- Read a string without escapes up to its closing quotes, in at most `steps` steps. -/
def literalWithin (multiline : Bool) : (steps : Nat) → Reader (List Char)
  | 0 => fail
  | steps + 1 => do
    if ← accept (if multiline then "'''" else "'") then return []
    else
      match ← get with
      | [] => fail
      | c :: rest =>
        set rest
        if isControl c && !(multiline && c == '\n') then fail
        else return c :: (← literalWithin multiline steps)

/-- Read a string without escapes; its opening quotes are read already. -/
def literal (multiline : Bool) : Reader String := do
  return String.ofList (← literalWithin multiline ((← remaining) + 1))

/-- Read a string of several lines.  A line feed right after the opening quotes is not part of
    it; up to two quotes right before the closing ones are. -/
def multilineString (quote : String) (body : Reader String) : Reader String := do
  let _ ← accept "\n"
  let text ← body
  if ← accept quote then
    if ← accept quote then return text ++ quote ++ quote else return text ++ quote
  else return text

/-- Read a string of any kind, if one comes next. -/
def string? : Reader (Option String) := do
  if ← accept "\"\"\"" then return some (← multilineString "\"" (basic true))
  else if ← accept "\"" then return some (← basic false)
  else if ← accept "'''" then return some (← multilineString "'" (literal true))
  else if ← accept "'" then return some (← literal false)
  else return none

/-! ## Numbers -/

/-- Further digits, with single underscores before them. -/
def moreDigits (isDigit : Char → Bool) : List Char → List Char × List Char
  | [] => ([], [])
  | [c] => if isDigit c then ([c], []) else ([], [c])
  | c :: d :: rest =>
    if isDigit c then
      let found := moreDigits isDigit (d :: rest)
      (c :: found.1, found.2)
    else if c = '_' ∧ isDigit d then
      let found := moreDigits isDigit rest
      (d :: found.1, found.2)
    else ([], c :: d :: rest)

/-- One digit and further ones. -/
def digits? (isDigit : Char → Bool) : List Char → Option (List Char × List Char)
  | [] => none
  | c :: rest =>
    if isDigit c then
      let found := moreDigits isDigit rest
      some (c :: found.1, found.2)
    else none

/-- The number with these digits in a base. -/
def ofDigits (base : Nat) (digits : List Char) : Nat :=
  digits.foldl (fun n c => base * n + (hexDigit? c).getD 0) 0

/-- Whether a character is a digit of a base up to ten. -/
def isDigitBelow (base : Nat) (c : Char) : Bool := c.isDigit && c.toNat - '0'.toNat < base

/-- An integer with a base in front of it. -/
def based? : List Char → Option (Nat × List Char)
  | '0' :: 'x' :: rest =>
    (digits? (fun c => (hexDigit? c).isSome) rest).map fun found => (ofDigits 16 found.1, found.2)
  | '0' :: 'o' :: rest =>
    (digits? (isDigitBelow 8) rest).map fun found => (ofDigits 8 found.1, found.2)
  | '0' :: 'b' :: rest =>
    (digits? (isDigitBelow 2) rest).map fun found => (ofDigits 2 found.1, found.2)
  | _ => none

/-- A sign, if there is one; the flag says whether it is a minus. -/
def sign : List Char → Bool × List Char
  | '-' :: rest => (true, rest)
  | '+' :: rest => (false, rest)
  | text => (false, text)

/-- A decimal numeral in its parts. -/
structure Numeral where
  negative : Bool
  whole : List Char
  /-- The digits behind the point. -/
  fraction : Option (List Char)
  /-- The sign and the digits of the exponent. -/
  exponent : Option (Bool × List Char)

/-- The integer part of a decimal number: zero, or digits that do not start with zero. -/
def whole? : List Char → Option (List Char × List Char)
  | '0' :: rest => some (['0'], rest)
  | text => digits? Char.isDigit text

/-- The digits behind a point, if there are any. -/
def fraction : List Char → Option (List Char) × List Char
  | '.' :: rest =>
    match digits? Char.isDigit rest with
    | some (digits, rest) => (some digits, rest)
    | none => (none, '.' :: rest)
  | text => (none, text)

/-- An exponent, if there is one. -/
def exponent : List Char → Option (Bool × List Char) × List Char
  | c :: rest =>
    if c = 'e' ∨ c = 'E' then
      let (negative, unsigned) := sign rest
      match digits? Char.isDigit unsigned with
      | some (digits, rest) => (some (negative, digits), rest)
      | none => (none, c :: rest)
    else (none, c :: rest)
  | [] => (none, [])

/-- A decimal numeral at the front of a text. -/
def numeral? (text : List Char) : Option (Numeral × List Char) :=
  let (negative, unsigned) := sign text
  (whole? unsigned).map fun (whole, rest) =>
    let (fraction, rest) := fraction rest
    let (exponent, rest) := exponent rest
    (⟨negative, whole, fraction, exponent⟩, rest)

/-- The double nearest to a numeral; infinite if it is too large. -/
def Numeral.toReal (n : Numeral) : Float :=
  let fraction := n.fraction.getD []
  let power : Int := match n.exponent with
    | none => 0
    | some (true, digits) => -(ofDigits 10 digits : Int)
    | some (false, digits) => ofDigits 10 digits
  let decimal : Decimal := ⟨ofDigits 10 (n.whole ++ fraction), power - fraction.length⟩
  let infinity : Float := 1.0 / 0.0
  (decimal.toReal? n.negative).getD (if n.negative then -infinity else infinity)

/-- The number that a numeral stands for. -/
def Numeral.toNumber (n : Numeral) : Except ReadError Number :=
  if n.fraction.isSome || n.exponent.isSome then .ok (.real n.toReal)
  else if DiceNotation.Numeral.maxDigits < n.whole.length then .error .tooManyDigits
  else
    let size : Int := ofDigits 10 n.whole
    .ok (.int (if n.negative then -size else size))

/-- Read a number, if one comes next. -/
def number? : Reader (Option Number) := do
  match ← attempt based? with
  | some n => return some (.int n)
  | none =>
    match ← attempt numeral? with
    | some n => return some (← n.toNumber)
    | none => return none

/-- Read an infinity or NaN, if one comes next. -/
def special? : Reader (Option Number) := do
  let infinity : Float := 1.0 / 0.0
  if ← acceptAny ["inf", "+inf"] then return some (.real infinity)
  else if ← accept "-inf" then return some (.real (-infinity))
  else if ← acceptAny ["nan", "+nan", "-nan"] then return some (.real (0.0 / 0.0))
  else return none

/-! ## Dates and times -/

/-- A number of exactly two digits between two bounds. -/
def twoDigits? (least most : Nat) : List Char → Option (Nat × List Char)
  | a :: b :: rest =>
    let n := ofDigits 10 [a, b]
    if a.isDigit && b.isDigit && least ≤ n && n ≤ most then some (n, rest) else none
  | _ => none

/-- The text behind a certain character. -/
def after? (c : Char) : List Char → Option (List Char)
  | d :: rest => if d = c then some rest else none
  | [] => none

/-- The microseconds behind a point, of which digits behind the sixth are ignored. -/
def microseconds : List Char → Nat × List Char
  | '.' :: rest =>
    let digits := rest.takeWhile Char.isDigit
    if digits.isEmpty then (0, '.' :: rest)
    else
      let six := (digits ++ List.replicate 6 '0').take 6
      (ofDigits 10 six, rest.dropWhile Char.isDigit)
  | text => (0, text)

/-- A time of day at the front of a text. -/
def time? (text : List Char) : Option (Time × List Char) := do
  let (hour, rest) ← twoDigits? 0 23 text
  let (minute, rest) ← twoDigits? 0 59 (← after? ':' rest)
  let (second, rest) ← twoDigits? 0 59 (← after? ':' rest)
  let (micros, rest) := microseconds rest
  return (⟨hour, minute, second, micros⟩, rest)

/-- The four digits of a year, the month and the day at the front of a text.  The day need not be
    one of the calendar. -/
def date? (text : List Char) : Option (Date × List Char) := do
  let (century, rest) ← twoDigits? 0 99 text
  let (year, rest) ← twoDigits? 0 99 rest
  let (month, rest) ← twoDigits? 1 12 (← after? '-' rest)
  let (day, rest) ← twoDigits? 1 31 (← after? '-' rest)
  return (⟨100 * century + year, month, day⟩, rest)

/-- The minutes ahead of universal time, if they are given. -/
def offset (text : List Char) : Option Int × List Char :=
  match text with
  | [] => (none, [])
  | c :: rest =>
    if c = 'Z' ∨ c = 'z' then (some 0, rest)
    else if c = '+' ∨ c = '-' then
      let found : Option (Int × List Char) := do
        let (hour, rest) ← twoDigits? 0 23 rest
        let (minute, rest) ← twoDigits? 0 59 (← after? ':' rest)
        let minutes : Int := 60 * hour + minute
        return (if c = '-' then -minutes else minutes, rest)
      match found with
      | some (minutes, rest) => (some minutes, rest)
      | none => (none, text)
    else (none, text)

/-- The time that goes with a date, if there is one. -/
def dateTail? (text : List Char) : Option ((Time × Option Int) × List Char) :=
  match text with
  | [] => none
  | c :: rest =>
    if c = 'T' ∨ c = 't' ∨ c = ' ' then
      (time? rest).map fun (time, rest) =>
        let (minutes, rest) := offset rest
        ((time, minutes), rest)
    else none

/-- Read a date, a time or both, if one comes next.  The day has to be one of the calendar. -/
def dateTime? : Reader (Option Value) := do
  match ← attempt date? with
  | some date =>
    let tail ← attempt dateTail?
    if !date.isValid then fail
    match tail with
    | none => return some (.date date)
    | some (time, minutes) => return some (.dateTime date time minutes)
  | none => return (← attempt time?).map Value.time

end DiceNotation.Toml
