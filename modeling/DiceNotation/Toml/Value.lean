import DiceNotation.Number.Basic
import DiceNotation.Text.Quoted

/-! # Values of a TOML document

A document is a table of values by key, in the order in which the keys first occur.  Dates and
times are kept in their parts.  `Value.shown` writes a value on one line for the log; a value that
holds a number with too many digits cannot be written (`Value.isWritable`). -/

namespace DiceNotation.Toml

/-- A day of the calendar. -/
structure Date where
  year : Nat
  month : Nat
  day : Nat
deriving DecidableEq, Repr

/-- A time of day. -/
structure Time where
  hour : Nat
  minute : Nat
  second : Nat
  microsecond : Nat
deriving DecidableEq, Repr

/-- A value of a document. -/
inductive Value where
  | string (s : String)
  | number (n : Number)
  | boolean (b : Bool)
  | date (d : Date)
  | time (t : Time)
  /-- A date with a time, and the minutes it is ahead of universal time if that is given. -/
  | dateTime (d : Date) (t : Time) (offset : Option Int)
  | array (items : List Value)
  | table (entries : List (String × Value))

instance : Inhabited Value := ⟨.table []⟩

/-- The values of a table by key. -/
abbrev Entries := List (String × Value)

namespace Date

/-- Whether a year has a twenty-ninth of February. -/
def isLeap (year : Nat) : Bool :=
  year % 4 == 0 && (year % 100 != 0 || year % 400 == 0)

/-- The number of days of a month. -/
def daysIn (year month : Nat) : Nat :=
  if month = 2 then (if isLeap year then 29 else 28)
  else if month = 4 ∨ month = 6 ∨ month = 9 ∨ month = 11 then 30
  else 31

/-- Whether the calendar has this day; years count from one. -/
def isValid (d : Date) : Bool :=
  1 ≤ d.year && 1 ≤ d.month && d.month ≤ 12 && 1 ≤ d.day && d.day ≤ daysIn d.year d.month

end Date

/-! ## Showing values -/

/-- Numbers separated by commas. -/
def showNumbers (numbers : List Nat) : String := ", ".intercalate (numbers.map toString)

/-- The parts of a time that are shown: seconds and microseconds not if there are none. -/
def Time.shown (t : Time) : List Nat :=
  if t.microsecond ≠ 0 then [t.hour, t.minute, t.second, t.microsecond]
  else if t.second ≠ 0 then [t.hour, t.minute, t.second]
  else [t.hour, t.minute]

/-- The zone that is ahead of universal time by so many minutes. -/
def showOffset (minutes : Int) : String :=
  if minutes = 0 then "datetime.timezone.utc"
  else
    let days := minutes.fdiv 1440
    let seconds := minutes.fmod 1440 * 60
    let parts := (if days = 0 then [] else [s!"days={days}"]) ++
      (if seconds = 0 then [] else [s!"seconds={seconds}"])
    "datetime.timezone(datetime.timedelta(" ++ ", ".intercalate parts ++ "))"

namespace Value

mutual

/-- A value on one line. -/
def shown : Value → String
  | string s => Text.quote s
  | number n => n.text
  | boolean b => if b then "True" else "False"
  | date d => "datetime.date(" ++ showNumbers [d.year, d.month, d.day] ++ ")"
  | time t => "datetime.time(" ++ showNumbers t.shown ++ ")"
  | dateTime d t offset =>
    let zone := match offset with
      | none => ""
      | some minutes => ", tzinfo=" ++ showOffset minutes
    "datetime.datetime(" ++ showNumbers ([d.year, d.month, d.day] ++ t.shown) ++ zone ++ ")"
  | array items => "[" ++ ", ".intercalate (showItems items) ++ "]"
  | table entries => "\x7b" ++ ", ".intercalate (showEntries entries) ++ "\x7d"

/-- Several values, each on one line. -/
def showItems : List Value → List String
  | [] => []
  | item :: rest => shown item :: showItems rest

/-- Several keys with their values, each on one line. -/
def showEntries : List (String × Value) → List String
  | [] => []
  | (key, value) :: rest => (Text.quote key ++ ": " ++ shown value) :: showEntries rest

end

mutual

/-- Whether all numbers in a value may be written into a text. -/
def isWritable : Value → Bool
  | number n => n.isWritable
  | array items => itemsAreWritable items
  | table entries => entriesAreWritable entries
  | _ => true

/-- Whether all numbers in several values may be written. -/
def itemsAreWritable : List Value → Bool
  | [] => true
  | item :: rest => isWritable item && itemsAreWritable rest

/-- Whether all numbers under several keys may be written. -/
def entriesAreWritable : List (String × Value) → Bool
  | [] => true
  | (_, value) :: rest => isWritable value && entriesAreWritable rest

end

/-- The entries of a table. -/
def entries? : Value → Option Entries
  | table entries => some entries
  | _ => none

end Value

end DiceNotation.Toml
