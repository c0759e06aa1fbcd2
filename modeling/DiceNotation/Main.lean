import DiceNotation.CommandLine.Report

/-! # The program

Reads the configuration file, takes random numbers from a seed and writes the report. -/

namespace DiceNotation.CommandLine

/-- How the program is called. -/
def usage : String := unlines
  ["usage: dicelang [options] expression", "",
    "Roll a tabletop dice expression", "",
    "  expression          dice expression, such as \"4d6kh3 + 2\"",
    "  -h, --help          show this help",
    "  --seed N            seed of the random numbers, for reproducible rolls",
    "  --config FILE       TOML file with a [dicelang] table of limits",
    "  --max-rolls N       most dice in a single roll",
    "  --max-sides N       most sides of a die",
    "  --max-iterations N  most explosions of a modifier and rerolls of a die",
    "  --json              write the full result, with the expanded tree, as JSON",
    "  -v, --verbose       log individual rolls"]

/-- What is found under a path. -/
def readFile (path : String) : IO FileContent := do
  try return .bytes (← IO.FS.readBinFile path)
  catch
    | .noFileOrDirectory .. => return .missing
    | e => throw e

/-- A seed nobody knows. -/
def freshSeed : IO Int := do
  let bytes ← IO.getRandomBytes 8
  return bytes.toList.foldl (fun n byte => 256 * n + byte.toNat) 0

/-- Do what is asked for, write the report and answer with the exit status. -/
def serve (request : Request) : IO UInt32 := do
  let file ← match request.options.config with
    | some path => readFile path
    | none => pure .missing
  let seed ← match request.options.seed? with
    | some seed => pure seed
    | none => freshSeed
  match request.perform file (.seeded seed) with
  | .ok report =>
    IO.print (unlines report.output)
    IO.eprint (unlines report.messages)
    return report.status.toUInt32
  | .error _ =>
    IO.eprintln "the expression cannot be rolled"
    return 1

end DiceNotation.CommandLine

open DiceNotation.CommandLine in
/-- Roll the expression of the command line. -/
def main (arguments : List String) : IO UInt32 := do
  match Request.ofArguments arguments with
  | .ok request => serve request
  | .error .help =>
    IO.print usage
    return 0
  | .error .misuse =>
    IO.eprint usage
    return 2
