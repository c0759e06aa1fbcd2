import DiceNotation.OrderedMap
import DiceNotation.Number.Basic

/-! # Limits

How many dice a roll may have, how many sides a die may have, and how often dice may explode or
be rolled again.  Limits are made from settings that come from outside: `ofSettings` accepts
positive integers only, in the order dice, sides, iterations, after it has refused names it
does not know. -/

namespace DiceNotation

/-- The limits of an evaluation. -/
structure Limits where
  /-- The most dice of one roll, and the most repeats of a group. -/
  maxRolls : Option Nat := none
  /-- The most sides of a die. -/
  maxSides : Option Nat := none
  /-- The most explosions of one modifier, and the most rerolls of one die. -/
  maxIterations : Nat := 1000
deriving DecidableEq, Repr, Inhabited

/-- A setting as it comes from outside. -/
inductive Setting where
  /-- No value. -/
  | unset
  /-- An integer. -/
  | whole (n : Int)
  /-- A value of any other type. -/
  | other
deriving DecidableEq, Repr

/-- What is wrong with a configuration. -/
inductive ConfigError where
  /-- There are options of other names. -/
  | unknownOptions (names : List String)
  /-- The option is no integer. -/
  | notAnInteger (name : String)
  /-- The option is zero or negative. -/
  | notPositive (name : String) (value : Int)
  /-- A table is expected under this name. -/
  | notATable (name : String)
  /-- There is no such file. -/
  | notFound (path : String)
  /-- The file is not in the right format. -/
  | malformed (path : String)
deriving DecidableEq, Repr

/-- The message of a configuration error. -/
def ConfigError.message : ConfigError → String
  | unknownOptions names => "Unknown option(s): " ++ ", ".intercalate names ++ "."
  | notAnInteger name => s!"Expected {name} to be an integer."
  | notPositive name value => s!"Expected {name} to be positive, got {value}."
  | notATable name => s!"Expected [{name}] to be a table."
  | notFound path => s!"Config file not found: {path}"
  | malformed path => s!"Invalid TOML in {path}"

/-- Why there are no limits. -/
inductive ConfigFault where
  /-- The configuration is wrong. -/
  | invalid (e : ConfigError)
  /-- A number has too many digits to be read or to be written into the message. -/
  | tooManyDigits
  /-- The file holds no UTF-8 text. -/
  | undecodable
deriving DecidableEq, Repr

namespace Limits

/-- Check that a setting is a positive integer. -/
def positive (name : String) : Setting → Except ConfigFault Nat
  | .whole n =>
    if 1 ≤ n then .ok n.toNat
    else if (Number.int n).isWritable then .error (.invalid (.notPositive name n))
    else .error .tooManyDigits
  | _ => .error (.invalid (.notAnInteger name))

/-- Check that a setting is a positive integer or has no value. -/
def positive? (name : String) : Setting → Except ConfigFault (Option Nat)
  | .unset => .ok none
  | setting => (positive name setting).map some

/-- The names of the settings. -/
def names : List String := ["max_roll_times", "max_dice_sides", "max_iterations"]

/-- The limits with the given settings. -/
def make (rolls sides iterations : Setting) : Except ConfigFault Limits := do
  let rolls ← positive? "max_roll_times" rolls
  let sides ← positive? "max_dice_sides" sides
  let iterations ← positive "max_iterations" iterations
  return ⟨rolls, sides, iterations⟩

/-- The limits with settings by name; a setting that is not there has its default. -/
def ofSettings (settings : OrderedMap Setting) : Except ConfigFault Limits := do
  let unknown := settings.keys.filter fun key => !names.contains key
  if !unknown.isEmpty then
    throw (.invalid (.unknownOptions (unknown.mergeSort fun a b => decide (a ≤ b))))
  make ((settings.get? "max_roll_times").getD .unset)
    ((settings.get? "max_dice_sides").getD .unset)
    ((settings.get? "max_iterations").getD (.whole ({} : Limits).maxIterations))

/-- The limits with those replaced that are set. -/
def override (limits : Limits) (rolls sides iterations : Setting) : Except ConfigFault Limits :=
  let setting (given : Setting) (old : Option Nat) : Setting :=
    match given, old with
    | .unset, some n => .whole n
    | given, _ => given
  make (setting rolls limits.maxRolls) (setting sides limits.maxSides)
    (setting iterations (some limits.maxIterations))

end Limits

end DiceNotation
