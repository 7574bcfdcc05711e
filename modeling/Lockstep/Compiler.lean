import Lockstep.Diagnostic
import Lockstep.Pipeline
import Lockstep.Rendezvous

/-!
# The compiler

A function is compiled lane by lane to segments, its points are placed, and the schedule goes
through a pipeline. A program is compiled function by function: an error gives up the function that
it occurs in and the others are still compiled, so that one run finds as many errors as it can.
Output is released only if there were none.
-/

set_option autoImplicit false

namespace Lockstep

/-- A compiled function. -/
structure CompiledFunction where
  schedule : Schedule
  report : Option Report
deriving DecidableEq

/-- The outcome for a program. -/
structure CompileOutput where
  /-- The functions that were compiled, in order. -/
  functions : List CompiledFunction
  /-- All that was reported, in order. -/
  diagnostics : List Diagnostic
deriving DecidableEq

namespace CompileOutput

/-- Whether an error was reported. -/
def hasErrors (o : CompileOutput) : Bool := o.diagnostics.any Diagnostic.isError

/-- What was reported besides errors. -/
def warnings (o : CompileOutput) : List Diagnostic := o.diagnostics.filter (!·.isError)

/-- The compiled functions if no error was reported, otherwise all that was reported. -/
def release (o : CompileOutput) : Except (List Diagnostic) (List CompiledFunction) :=
  if o.hasErrors then .error o.diagnostics else .ok o.functions

end CompileOutput

/-- A compiler: its options, and the label supply that its functions share. -/
structure Compiler where
  options : Options
  supply : LabelSupply
deriving DecidableEq

namespace Compiler

/-- A compiler of which no label is taken. -/
def new (options : Options) : Compiler := ⟨options, .fresh⟩

/-- Run the pipeline of the options on a schedule. The schedule is given back as it is at the end,
or at the refusal. -/
def resolve (options : Options) (schedule : Schedule) :
    Except CompileError (Option Report) × Schedule :=
  match (Pipeline.ofOptions options).run ⟨schedule, { function := some schedule.name }⟩ with
  | (none, stage) => (.ok stage.properties.report, stage.schedule)
  | (some e, stage) => (.error e, stage.schedule)

/-- Lower the lanes of a function, one after the other with one label supply. -/
def lowerLanes (supply : LabelSupply) :
    List LaneBody → Except LoweringError (List (LaneId × List Segment)) × LabelSupply
  | [] => (.ok [], supply)
  | lane :: lanes =>
    match (Lowerer.new supply).lower lane.body with
    | (.error e, s) => (.error e, s.supply)
    | (.ok segments, s) =>
      match lowerLanes s.supply lanes with
      | (.error e, supply) => (.error e, supply)
      | (.ok rest, supply) => (.ok ((lane.lane, segments) :: rest), supply)

/-- What becomes of lowered lanes. -/
def assemble (options : Options) (name : String) (lanes : List (LaneId × List Segment)) :
    Except CompileError CompiledFunction :=
  match Schedule.ofLanes name (placeBarriers options.initialWait lanes) with
  | .error e => .error (.schedule e)
  | .ok schedule =>
    match resolve options schedule with
    | (.ok report, schedule) => .ok { schedule, report }
    | (.error e, _) => .error e

/-- Compile a function. Labels that were taken stay taken, whatever the outcome. -/
def compileFunction (c : Compiler) (f : Function) :
    Except CompileError CompiledFunction × Compiler :=
  match lowerLanes c.supply f.lanes with
  | (.error e, supply) => (.error (.lowering e), { c with supply })
  | (.ok lanes, supply) => (assemble c.options f.name lanes, { c with supply })

/-- The warning that the lanes of a function have different numbers of barriers. -/
def mismatchWarning (f : Function) (counts : List Nat) : Diagnostic :=
  let lanes := f.lanes.zipWith (fun lane count => lane.lane.text ++ ": " ++ toString count) counts
  let d : Diagnostic :=
    { code := some .mismatchedBarriers
      severity := .warning
      function := some f.name
      message := "lanes have different barrier counts (" ++ ", ".intercalate lanes ++
        "); barriers left unresolved"
      hint := some "every lane must take part in the same sequence of concurrent blocks" }
  d.withLocation f.location

/-- The diagnostic of an error in a function. -/
def errorIn (f : Function) (e : CompileError) : Diagnostic :=
  { Diagnostic.ofError e with function := some f.name }.orLocation f.location

/-- The warnings about a compiled function. -/
def warningsOf (f : Function) (compiled : CompiledFunction) : List Diagnostic :=
  match compiled.report.bind Report.mismatch with
  | some counts => [mismatchWarning f counts]
  | none => []

/-- Compile functions one after the other. Only an error of the label supply stops the run. -/
def compileFunctions (c : Compiler) : List Function → CompileOutput × Compiler
  | [] => (⟨[], []⟩, c)
  | f :: fs =>
    match c.compileFunction f with
    | (.ok compiled, c) =>
      let (rest, c) := compileFunctions c fs
      (⟨compiled :: rest.functions, warningsOf f compiled ++ rest.diagnostics⟩, c)
    | (.error e, c) =>
      if e.isLabelError then (⟨[], [errorIn f e]⟩, c)
      else
        let (rest, c) := compileFunctions c fs
        (⟨rest.functions, errorIn f e :: rest.diagnostics⟩, c)

/-- Compile a program, with no label taken. -/
def compile (c : Compiler) (p : Program) : CompileOutput × Compiler :=
  { c with supply := .fresh }.compileFunctions p.functions

end Compiler

end Lockstep
