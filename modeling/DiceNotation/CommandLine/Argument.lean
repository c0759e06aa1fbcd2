import DiceNotation.Text.Digit

/-! # Arguments by their look

An option is named in full, by an unambiguous beginning of a long name, or by a letter behind a
single dash.  A value may be attached to a long name with an equals sign (`--seed=5`).  Letters
may be joined (`-vh`), with or without an equals sign behind the first one.  What looks like a
negative number or holds a space is no option, and behind the argument `--` nothing is.

`classify` sorts all arguments before any of them has an effect. -/

namespace DiceNotation.CommandLine

/-- The options without a value. -/
inductive Flag where
  | help
  | json
  | verbose
deriving DecidableEq, Repr

/-- The options with a value. -/
inductive Parameter where
  | seed
  | config
  | maxRolls
  | maxSides
  | maxIterations
deriving DecidableEq, Repr

/-- An option. -/
inductive Switch where
  | flag (f : Flag)
  | parameter (p : Parameter)
deriving DecidableEq, Repr

/-- Why the arguments are no request for a roll. -/
inductive Interruption where
  /-- Help is asked for. -/
  | help
  /-- The arguments are wrong. -/
  | misuse
deriving DecidableEq, Repr

/-- What an argument is by its look. -/
inductive Argument where
  /-- Anything that is no option. -/
  | plain (text : String)
  /-- The argument `--`. -/
  | separator
  /-- An option, with the value attached to it if there is one. -/
  | switch (option : Switch) (attached : Option String)
  /-- A letter with more letters joined to it. -/
  | joined (first : Flag) (more : List Char)
  /-- An option that does not exist. -/
  | unknown
deriving DecidableEq, Repr

/-- The flags that have a letter. -/
def Flag.ofLetter? : Char → Option Flag
  | 'h' => some .help
  | 'v' => some .verbose
  | _ => none

namespace Switch

/-- The options by their long names. -/
def names : List (String × Switch) :=
  [("--help", .flag .help), ("--seed", .parameter .seed), ("--config", .parameter .config),
    ("--max-rolls", .parameter .maxRolls), ("--max-sides", .parameter .maxSides),
    ("--max-iterations", .parameter .maxIterations), ("--json", .flag .json),
    ("--verbose", .flag .verbose)]

/-- The options whose long name begins with the given letters. -/
def beginningWith (letters : String) : List Switch :=
  (names.filter fun entry => letters.toList.isPrefixOf entry.1.toList).map Prod.snd

end Switch

namespace Argument

/-- The text before the first equals sign, and the text behind it if there is one. -/
def splitAtEquals (text : List Char) : String × Option String :=
  let (before, rest) := text.span (· != '=')
  (String.ofList before, rest.tail?.map String.ofList)

/-- Whether all characters are decimal digits, and there is at least one. -/
def isDigits (text : List Char) : Bool :=
  !text.isEmpty && text.all fun c => (Text.digit? c).isSome

/-- Whether characters are those of a negative number, with or without a fraction; a line feed
    may follow. -/
def looksNegative (text : List Char) : Bool :=
  match if text.getLast? = some '\n' then text.dropLast else text with
  | '-' :: number =>
    let (whole, rest) := number.span fun c => (Text.digit? c).isSome
    match rest with
    | [] => isDigits whole
    | c :: fraction => c = '.' && isDigits fraction
  | _ => false

/-- An argument that starts with a dash and names no option. -/
def unnamed (text : List Char) : Argument :=
  if looksNegative text || text.contains ' ' then .plain (String.ofList text) else .unknown

/-- An argument that starts with two dashes and has more to it. -/
def long (text : List Char) : Except Interruption Argument :=
  let (name, attached) := splitAtEquals text
  match Switch.names.lookup name, Switch.beginningWith name with
  | some option, _ => .ok (.switch option attached)
  | none, [option] => .ok (.switch option attached)
  | none, [] => .ok (unnamed text)
  | none, _ => .error .misuse

/-- An argument that starts with a dash and the given letter, which is no dash. -/
def short (letter : Char) (more : List Char) : Argument :=
  match Flag.ofLetter? letter, more with
  | some flag, [] => .switch (.flag flag) none
  | some flag, ['='] => .switch (.flag flag) (some "")
  | some flag, '=' :: letters => .joined flag letters
  | some flag, _ => .joined flag more
  | none, _ => unnamed ('-' :: letter :: more)

/-- What an argument other than `--` is. -/
def ofText (text : String) : Except Interruption Argument :=
  match text.toList with
  | '-' :: '-' :: rest => long ('-' :: '-' :: rest)
  | '-' :: letter :: more => .ok (short letter more)
  | _ => .ok (.plain text)

/-- What all arguments are. -/
def classify : List String → Except Interruption (List Argument)
  | [] => .ok []
  | text :: rest =>
    -- Behind the separator nothing is an option, not even another separator.
    if text = "--" then .ok (.separator :: rest.map .plain)
    else do return (← ofText text) :: (← classify rest)

end Argument

end DiceNotation.CommandLine
