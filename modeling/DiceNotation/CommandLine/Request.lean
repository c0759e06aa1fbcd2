import DiceNotation.CommandLine.Argument
import DiceNotation.Limits
import DiceNotation.Number.Numeral

/-! # Requests

A `Request` is what the command line asks for: one expression and the options.  The
expression may stand before, between or behind the options; the separator `--` belongs to it
if it stands next to it, so that an expression may start with a dash.

`Request.ofArguments` takes the arguments from left to right.  Help ends the reading at once,
and so does an option with a wrong value; what is left over is found wrong at the end.

Two dashes attached to an option as its value (`--seed=--`) count as the end of the options and
are taken away, so that the option is given without a value: as a number that is none, and as a
path that leads nowhere, like no path at all. -/

namespace DiceNotation.CommandLine

/-- The options of a request. -/
structure Options where
  /-- Makes the rolls reproducible. -/
  seed : Setting := .unset
  /-- The path of the configuration file. -/
  config : Option String := none
  maxRolls : Setting := .unset
  maxSides : Setting := .unset
  maxIterations : Setting := .unset
  /-- Whether the whole result is written as JSON. -/
  json : Bool := false
  /-- Whether everything is logged. -/
  verbose : Bool := false
deriving DecidableEq, Repr

/-- What the command line asks for. -/
structure Request where
  expression : String
  options : Options
deriving DecidableEq, Repr

/-! ## Paths -/

/-- A path with single slashes, without steps to the same place and without a slash at the end.
    Exactly two slashes in front stay two. -/
def normalizePath (path : String) : String :=
  let slashes := (path.toList.takeWhile (· = '/')).length
  let root := if slashes = 0 then "" else if slashes = 2 then "//" else "/"
  let steps := (path.splitOn "/").filter fun step => step ≠ "" ∧ step ≠ "."
  let whole := root ++ "/".intercalate steps
  if whole = "" then "." else whole

/-! ## Values of options -/

namespace Options

/-- The value of an option without the mark that ends the options. -/
def stripped (value : String) : Option String := if value = "--" then none else some value

/-- The integer that the value of an option states. -/
def integer (value : String) : Except Interruption Setting :=
  match stripped value with
  | none => .ok .other
  | some text =>
    match Numeral.read text with
    | .ok n => .ok (.whole n)
    | .error _ => .error .misuse

/-- Give an option its value. -/
def assign (options : Options) (value : String) : Parameter → Except Interruption Options
  | .seed => do return { options with seed := ← integer value }
  | .config => return { options with config := (stripped value).map normalizePath }
  | .maxRolls => do return { options with maxRolls := ← integer value }
  | .maxSides => do return { options with maxSides := ← integer value }
  | .maxIterations => do return { options with maxIterations := ← integer value }

/-- Set a flag. -/
def raise (options : Options) : Flag → Except Interruption Options
  | .help => throw .help
  | .json => return { options with json := true }
  | .verbose => return { options with verbose := true }

/-- Set several flags from left to right. -/
def raiseAll (options : Options) (flags : List Flag) : Except Interruption Options :=
  flags.foldlM raise options

/-- The seed, if it is a number. -/
def seed? (options : Options) : Option Int :=
  match options.seed with
  | .whole n => some n
  | _ => none

/-- The limits of a configuration, with those that the options state in their place. -/
def applyTo (options : Options) (limits : Limits) : Except ConfigFault Limits :=
  limits.override options.maxRolls options.maxSides options.maxIterations

end Options

/-- The flags that letters stand for; all of them must be known. -/
def Flag.ofLetters (letters : List Char) : Except Interruption (List Flag) :=
  match letters.mapM ofLetter? with
  | some flags => .ok flags
  | none => .error .misuse

/-! ## Reading arguments -/

/-- What has been read of a request. -/
structure Progress where
  expression : Option String := none
  options : Options := {}
  /-- Whether there were arguments that belong nowhere. -/
  surplus : Bool := false
deriving DecidableEq, Repr

namespace Progress

/-- Take a text as the expression, if there is none yet. -/
def take (progress : Progress) (text : String) : Progress :=
  match progress.expression with
  | none => { progress with expression := some text }
  | some _ => { progress with surplus := true }

/-- Read arguments. -/
def read (progress : Progress) : List Argument → Except Interruption Progress
  | [] => .ok progress
  | .switch (.parameter p) (some value) :: rest => do
    read { progress with options := ← progress.options.assign value p } rest
  | .switch (.parameter p) none :: .plain value :: rest => do
    read { progress with options := ← progress.options.assign value p } rest
  | .switch (.parameter _) none :: _ => .error .misuse
  | .switch (.flag f) none :: rest => do
    read { progress with options := ← progress.options.raise f } rest
  | .switch (.flag _) (some _) :: _ => .error .misuse
  | .joined first more :: rest => do
    -- A letter that is not known is a mistake before any of the flags has an effect.
    let flags ← Flag.ofLetters more
    read { progress with options := ← progress.options.raiseAll (first :: flags) } rest
  | .unknown :: rest => read { progress with surplus := true } rest
  | .plain text :: .separator :: rest => read (progress.take text) rest
  | .plain text :: rest => read (progress.take text) rest
  | .separator :: .plain text :: rest => read (progress.take text) rest
  | .separator :: rest => read { progress with surplus := true } rest

/-- The request, if it is complete and nothing is left over. -/
def finish (progress : Progress) : Except Interruption Request :=
  match progress.expression with
  | some expression =>
    if progress.surplus then .error .misuse else .ok ⟨expression, progress.options⟩
  | none => .error .misuse

end Progress

/-- The request that the arguments of the command line make. -/
def Request.ofArguments (arguments : List String) : Except Interruption Request := do
  let progress ← Progress.read {} (← Argument.classify arguments)
  progress.finish

end DiceNotation.CommandLine
