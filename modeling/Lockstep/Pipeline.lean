import Lockstep.Alignment
import Lockstep.CompileError
import Lockstep.Options

/-!
# Pipelines

What is done to a schedule after its points are placed: a list of passes, each of which may change
the schedule, leave something behind for later passes, or refuse. A pipeline stops at the first
refusal and keeps the schedule as it is then.
-/

set_option autoImplicit false

namespace Lockstep

/-- The labels of a schedule that passed verification. -/
structure LabelSummary where
  /-- The labels defined in all lanes. -/
  defined : Nat
  /-- The jumps in all lanes. -/
  jumps : Nat
deriving DecidableEq

/-- What passes leave behind for one another. -/
structure Properties where
  /-- The function that is being compiled. -/
  function : Option String := none
  /-- What was done about the barriers. -/
  report : Option Report := none
  /-- What was found about the labels. -/
  labels : Option LabelSummary := none
deriving DecidableEq

/-- A schedule and what is known about it. -/
structure Stage where
  schedule : Schedule
  properties : Properties
deriving DecidableEq

/-! ## Verification -/

/-- The first lane that still has barriers. -/
def remainingBarrier? : List Lane → Option CompileError
  | [] => none
  | lane :: lanes =>
    if lane.barrierCount = 0 then remainingBarrier? lanes
    else some (.barrierRemaining lane.id lane.barrierCount)

/-- The labels that a lane defines, in order. -/
def Lane.definedLabels (lane : Lane) : List Label := labelsOf lane.code

/-- The labels that a lane jumps to, in order. -/
def Lane.targets (lane : Lane) : List Label := targetsOf lane.code

/-- Check that a lane defines no label twice and every label it jumps to. -/
def Lane.checkLabels (lane : Lane) : Except CompileError LabelSummary :=
  match firstRepeated? [] lane.definedLabels with
  | some label => .error (.duplicateLabel lane.id label)
  | none =>
    match lane.targets.find? (· ∉ lane.definedLabels) with
    | some label => .error (.undefinedLabel lane.id label)
    | none => .ok ⟨lane.definedLabels.length, lane.targets.length⟩

/-- Check the labels of all lanes. -/
def checkLabels (lanes : List Lane) : Except CompileError LabelSummary := do
  let summaries ← lanes.mapM Lane.checkLabels
  return summaries.foldr (fun s total => ⟨s.defined + total.defined, s.jumps + total.jumps⟩) ⟨0, 0⟩

/-! ## Passes -/

/-- A pass over a schedule. -/
inductive Pass where
  /-- Align the lanes. -/
  | align
  /-- Let the lanes meet at run time at every barrier. -/
  | synchronize
  /-- Check that no barrier is left. -/
  | verifyBarriers
  /-- Check the labels. -/
  | verifyLabels
deriving DecidableEq

namespace Pass

/-- The name of a pass. -/
def name : Pass → String
  | align => "barrier_resolution"
  | synchronize => "full_synchronization"
  | verifyBarriers => "barrier_free_verification"
  | verifyLabels => "label_verification"

/-- Whether a pass may change the schedule. -/
def isTransformation : Pass → Bool
  | align | synchronize => true
  | verifyBarriers | verifyLabels => false

/-- Whether a pass applies: lanes that could not be aligned may keep their barriers. -/
def applies (stage : Stage) : Pass → Bool
  | verifyBarriers => !(stage.properties.report.any Report.isMismatch)
  | _ => true

/-- Put arranged lanes and the report on them into a stage. -/
def settle (stage : Stage) (lanes : List Lane) (report : Report) : Stage where
  schedule := { stage.schedule with lanes }
  properties := { stage.properties with report := some report }

/-- Run a pass: why it refuses, if it does, and the stage after that. -/
def run (stage : Stage) : Pass → Option CompileError × Stage
  | align =>
    match alignLanes stage.schedule.lanes with
    | (.ok report, lanes) => (none, settle stage lanes report)
    | (.error e, lanes) =>
      (some (.timing e), { stage with schedule := { stage.schedule with lanes } })
  | synchronize =>
    let (report, lanes) := synchronizeLanes stage.schedule.lanes
    (none, settle stage lanes report)
  | verifyBarriers => (remainingBarrier? stage.schedule.lanes, stage)
  | verifyLabels =>
    match checkLabels stage.schedule.lanes with
    | .ok summary =>
      (none, { stage with properties := { stage.properties with labels := some summary } })
    | .error e => (some e, stage)

end Pass

/-- Passes in a row. -/
abbrev Pipeline := List Pass

namespace Pipeline

/-- Run the passes that apply, up to the first refusal. -/
def run (stage : Stage) : Pipeline → Option CompileError × Stage
  | [] => (none, stage)
  | pass :: rest =>
    if pass.applies stage then
      match pass.run stage with
      | (none, stage) => run stage rest
      | (some e, stage) => (some e, stage)
    else run stage rest

/-- The pipeline that options ask for. -/
def ofOptions (options : Options) : Pipeline :=
  (if options.level = 0 then .synchronize else .align) ::
    if options.verify then [.verifyBarriers, .verifyLabels] else []

end Pipeline

end Lockstep
