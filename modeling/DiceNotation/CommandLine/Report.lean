import DiceNotation.CommandLine.Json
import DiceNotation.CommandLine.Request
import DiceNotation.Config
import DiceNotation.Random

/-! # What the program reports

`Request.perform` rolls the expression of a request.  Its `Report` holds the exit status and the
lines for the standard output and for the error output: first the log, then one line for each
error.  The log holds warnings, and everything if the request is verbose.

The status is 0 after a roll without errors and 1 after one with errors; it is 2 where the
configuration is wrong or the expression calls an unknown function.  Nothing is reported of
what the program has no words for (`Breakdown`). -/

namespace DiceNotation.CommandLine

/-! ## The log -/

/-- A line of the log. -/
structure LogLine where
  level : LogLevel
  /-- The part of the program that the line comes from. -/
  origin : String
  text : String
deriving DecidableEq, Repr

namespace LogLine

/-- The line as it is written. -/
def shown (line : LogLine) : String := s!"{line.level.name} dicelang.{line.origin}: {line.text}"

/-- The line on a table of settings that was found.  There is none if a number in the table has
    too many digits to be written. -/
def ofSettings? (path : String) (table : Toml.Entries) : Option LogLine :=
  let settings := Toml.Value.table table
  if settings.isWritable then
    some ⟨.debug, "config", s!"loaded options from {path}: " ++ settings.shown⟩
  else none

/-- The line on a diagnostic. -/
def ofDiagnostic (d : Diagnostic) : LogLine :=
  match d.cause with
  | .unknownCharacter c =>
    ⟨.debug, "lexer", "skipping unknown character " ++ Text.quote c.toString ++
      s!" at {d.position}"⟩
  | _ => ⟨.debug, "parser", s!"{d.code}: {d.message}"⟩

/-- The line on a note of an evaluation. -/
def ofNote (note : Note) : LogLine := ⟨note.level, "interpreter", note.message⟩

end LogLine

/-! ## Reports -/

/-- What a run of the program leaves behind. -/
structure Report where
  status : Nat
  /-- The lines of the standard output. -/
  output : List String
  /-- The lines of the error output. -/
  messages : List String
deriving DecidableEq, Repr

/-- Why a run of the program ends without a report. -/
inductive Breakdown where
  | config (e : ConfigFault)
  | roll (e : RollFault)
  | rendering (e : RenderFault)
  /-- A seed is given that is no number. -/
  | seed

/-- Text made of lines. -/
def unlines (lines : List String) : String := String.join (lines.map (· ++ "\n"))

namespace Request

/-- The limits of a request, given what is found under the path of its configuration file; also
    the log of finding them. -/
def limits (request : Request) (file : FileContent) :
    Except ConfigFault Limits × List LogLine :=
  match request.options.config with
  | none => (request.options.applyTo {}, [])
  | some path =>
    match Config.readTable path file with
    | .error e => (.error e, [])
    | .ok table =>
      (Config.limits table >>= request.options.applyTo, (LogLine.ofSettings? path table).toList)

/-- The result of a request's expression; also the log of rolling it. -/
def roll (request : Request) (limits : Limits) (source : Source) :
    Except RollFault RollResult × List LogLine :=
  match parse request.expression with
  | .error e => (.error (.reading e), [])
  | .ok parsed =>
    let (result, record) := parsed.roll ⟨limits, .default, source⟩
    let log := parsed.diagnostics.map .ofDiagnostic ++ record.notes.toList.map .ofNote
    (result.mapError .evaluation, log)

/-- Whether a line of the log is written. -/
def logs (request : Request) (line : LogLine) : Bool :=
  request.options.verbose || line.level = .warning

/-- A report with the given log and errors. -/
def report (request : Request) (status : Nat) (output : List String) (log : List LogLine)
    (errors : List String) : Report :=
  ⟨status, output,
    (log.filter request.logs).map LogLine.shown ++ errors.map ("error: " ++ ·)⟩

/-- The lines of the standard output for a result. -/
def output (request : Request) (result : RollResult) : Except RenderFault (List String) := do
  if request.options.json then
    let json := Json.ofResult result
    if json.isWritable then return [json.print] else throw .tooManyDigits
  else result.summary

/-- Do what is asked for, given what is found under the path of the configuration file and where
    random numbers come from. -/
def perform (request : Request) (file : FileContent) (source : Source) :
    Except Breakdown Report := do
  let (limits, configLog) := request.limits file
  match limits with
  | .error (.invalid e) => return request.report 2 [] configLog [e.message]
  | .error e => throw (.config e)
  | .ok limits =>
    if request.options.seed = .other then throw .seed
    let (result, rollLog) := request.roll limits source
    let log := configLog ++ rollLog
    match result with
    | .error (.evaluation e) =>
      if e.isRefusal then return request.report 2 [] log [e.message]
      else throw (.roll (.evaluation e))
    | .error e => throw (.roll e)
    | .ok result =>
      match request.output result with
      | .error e => throw (.rendering e)
      | .ok output =>
        return request.report (if result.errors.isEmpty then 0 else 1) output log result.errors

end Request

end DiceNotation.CommandLine
