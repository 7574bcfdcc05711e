import Lockstep.CommandLine.Arguments
import Lockstep.CommandLine.Host
import Lockstep.CommandLine.Path
import Lockstep.Compiler.Json
import Lockstep.Statement.Json
import Lockstep.Yaml.Reader
import Lockstep.Yaml.Shape

/-!
# Commands

`compile` reads a program and writes the schedules of its functions; `resolve` aligns the lanes of a
schedule. Programs are JSON or YAML documents, configurations are YAML documents, and schedules are
JSON documents. Diagnostics and failures go to the message stream.
-/

set_option autoImplicit false

namespace Lockstep.CommandLine

/-! ## Documents -/

/-- What a YAML document says where a shape is expected. -/
def readYaml? (shape : Yaml.Shape) (text : String) : Option Datum :=
  (Yaml.parse? text).map fun value => value.asShape shape

/-- The shape of a place. -/
def locationShape : Yaml.Shape := .record [("line", .natural), ("column", .natural)]

/-- The shape of a statement. -/
def statementShape : Yaml.Shape := .record [("kind", .any), ("location", locationShape)]

/-- The shape of a lane. -/
def laneShape : Yaml.Shape := .record [("lane", .natural), ("body", .list statementShape)]

/-- The shape of a function. -/
def functionShape : Yaml.Shape :=
  .record [("name", .text), ("location", locationShape), ("lanes", .list laneShape)]

/-- The shape of a program. -/
def programShape : Yaml.Shape := .record [("functions", .list functionShape)]

/-- The shape of options. -/
def optionsShape : Yaml.Shape :=
  .record [("optimization_level", .natural), ("initial_wait", .truth), ("verify", .truth)]

/-- The program of a document in a file with the given name. -/
def programOf? (path text : String) : Option Program := do
  let d ← if extension path ∈ ["yaml", "yml"] then readYaml? programShape text else Json.parse? text
  Program.ofDatum? d

/-- The options of a document. -/
def optionsOf? (text : String) : Option Options :=
  (readYaml? optionsShape text).bind Options.ofDatum?

/-! ## Commands -/

section

variable {m : Type → Type} [Monad m] (host : Host m)

/-- A command that may fail with a message. -/
abbrev Action (m : Type → Type) := ExceptT String m

/-- Print a line of output. -/
def printLine (line : String) : Action m Unit := ExceptT.lift (host.printLine line)

/-- The text of a file; `missing` says whether a missing file has a message of its own. -/
def readFile (missing : Bool) (path : String) : Action m String := do
  if missing then
    if !(← ExceptT.lift (host.pathExists path)) then
      throw ("File not found: " ++ path)
  match ← ExceptT.lift (host.readText path) with
  | .ok text => return text
  | .error e => throw ("Failed to read file: " ++ path ++ ": " ++ e.message)

/-- Write a document to a file, or print it. -/
def writeDocument (text : String) : Option String → Action m Unit
  | some path => do
    match ← ExceptT.lift (host.writeText path text) with
    | .ok () => return ()
    | .error e => throw ("Failed to write file: " ++ path ++ ": " ++ e.message)
  | none => printLine host text

/-- Print diagnostics on the message stream. -/
def reportAll (diagnostics : List Diagnostic) : Action m Unit :=
  ExceptT.lift (diagnostics.forM fun d => d.lines.forM host.reportLine)

/-- The options of a configuration, or the default ones. -/
def loadOptions : Option String → Action m Options
  | none => return {}
  | some path => do
    match optionsOf? (← readFile host true path) with
    | some options => return options
    | none => throw ("Invalid configuration: " ++ path)

/-- The program of a file. -/
def loadProgram (path : String) : Action m Program := do
  match programOf? path (← readFile host true path) with
  | some program => return program
  | none => throw ("Failed to parse program: " ++ path)

/-- The schedule of a file. -/
def loadSchedule (path : String) : Action m Schedule := do
  match Schedule.ofDocument? (← readFile host false path) with
  | some schedule => return schedule
  | none => throw ("Failed to parse schedule: " ++ path)

/-- The line about a compiled function. -/
def summary (f : CompiledFunction) : String :=
  let report := f.report.getD .empty
  "  " ++ f.schedule.name ++ ": " ++ toString f.schedule.lanes.length ++ " lanes, " ++
    toString f.schedule.instructionCount ++ " instructions, " ++ toString report.padded ++
    " padded / " ++ toString report.synchronized ++ " synchronized"

/-- Compile a program. -/
def compile (input : String) (output config : Option String) (level : Option UInt8)
    (noInitialWait : Bool) : Action m Unit := do
  printLine host ("→ Compiling " ++ input)
  let configured ← loadOptions host config
  let levelled := match level with
    | some level => configured.withLevel level
    | none => configured
  let options := { levelled with initialWait := levelled.initialWait && !noInitialWait }
  let program ← loadProgram host input
  printLine host ("  Loaded: " ++ toString program.functions.length ++ " functions (level " ++
    toString options.level.toNat ++ ")")
  let (result, _) := (Compiler.new options).compile program
  reportAll host result.diagnostics
  match result.release with
  | .error diagnostics =>
    throw ("compilation failed with " ++ toString (diagnostics.countP (·.isError)) ++
      " error(s); no output written")
  | .ok functions =>
    printLine host "✓ Compilation complete"
    ExceptT.lift (functions.forM fun f => host.printLine (summary f))
    let path := output.getD (beside input (stem input ++ "_schedule.json"))
    writeDocument host (CompiledFunction.document functions) (some path)
    printLine host ("  Output: " ++ path)

/-- The warning about a schedule whose lanes have different numbers of barriers. -/
def mismatchWarning (schedule : Schedule) (counts : List Nat) : Diagnostic :=
  { code := some .mismatchedBarriers
    severity := .warning
    function := some schedule.name
    message := "lanes have different barrier counts [" ++
      ", ".intercalate (counts.map toString) ++ "]; barriers left unresolved" }

/-- Align the lanes of a schedule. -/
def resolve (input : String) (output : Option String) (level : UInt8) : Action m Unit := do
  let schedule ← loadSchedule host input
  let options := ({} : Options).withLevel level
  match Compiler.resolve options schedule with
  | (.error e, schedule) =>
    reportAll host [{ Diagnostic.ofError e with function := some schedule.name }]
    throw ("barrier resolution failed for '" ++ schedule.name ++ "'")
  | (.ok report, schedule) =>
    match report.bind Report.mismatch with
    | some counts => reportAll host [mismatchWarning schedule counts]
    | none => pure ()
    writeDocument host schedule.document output

/-- The number of the version. -/
def versionText : String := "0.3.0"

/-- What the program says about itself. -/
def banner : List String :=
  ["qlane v" ++ versionText ++ " - control-flow lowering and lane alignment",
    "",
    "Components:",
    "  qlane-ir       Lane instructions, schedules and statement tree",
    "  qlane-compile  Lowering, barrier insertion and resolution",
    "  qlane-cli      Command-line interface",
    "",
    "Repository: https://github.com/qlane-dev/qlane",
    "License:    Apache-2.0"]

/-- Carry out a command. -/
def perform : Command → Action m Unit
  | .compile input output config level noInitialWait =>
    compile host input output config level noInitialWait
  | .resolve input output level => resolve host input output level
  | .version => ExceptT.lift (banner.forM host.printLine)
  | .versionNumber => printLine host ("qlane " ++ versionText)

/-- What the program says about arguments that it does not understand. -/
def usage : String := "Usage: qlane [OPTIONS] <COMMAND>"

/-- Run the program: its exit code is 2 if the arguments are not understood and 1 if the command
fails. -/
def run (configured : Option String) (args : List String) : m UInt32 := do
  match readArguments configured args with
  | none =>
    host.reportLine usage
    return 2
  | some command =>
    match ← (perform host command).run with
    | .ok () => return 0
    | .error message =>
      host.reportLine ("Error: " ++ message)
      return 1

end

end Lockstep.CommandLine
