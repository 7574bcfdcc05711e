import Lockstep.Lowering
import Lockstep.Timing

/-!
# Compile errors

Why a function is not compiled.
-/

set_option autoImplicit false

namespace Lockstep

/-- Why a function is not compiled. -/
inductive CompileError where
  /-- The lanes do not make a schedule. -/
  | schedule (error : ScheduleError)
  /-- The label supply refused. -/
  | label (error : LabelError)
  /-- The statements cannot be lowered. -/
  | lowering (error : LoweringError)
  /-- A lane cannot be walked. -/
  | timing (error : TimingError)
  /-- A lane still has barriers. -/
  | barrierRemaining (lane : LaneId) (count : Nat)
  /-- A label is jumped to and nowhere defined in the lane. -/
  | undefinedLabel (lane : LaneId) (label : Label)
  /-- A label is defined twice in the lane. -/
  | duplicateLabel (lane : LaneId) (label : Label)
deriving DecidableEq

namespace CompileError

/-- The text of an error. -/
def message : CompileError → String
  | schedule error => "IR error: " ++ error.message
  | label error => "Label configuration error: " ++ error.message
  | lowering error => error.message
  | timing error => "Barrier resolution failed: " ++ error.message
  | barrierRemaining lane count =>
    "Lane " ++ lane.text ++ " still contains " ++ toString count ++ " barrier(s) after resolution"
  | undefinedLabel lane target =>
    "Lane " ++ lane.text ++ ": label '" ++ target.name ++ "' is used but never defined"
  | duplicateLabel lane target =>
    "Lane " ++ lane.text ++ ": label '" ++ target.name ++ "' is defined more than once"

/-- Whether an error concerns the label supply, on which all functions depend. -/
def isLabelError : CompileError → Bool
  | label _ | lowering (.label _) => true
  | _ => false

/-- The place of the offending statement. -/
def location? : CompileError → Option Location
  | lowering error => error.location?
  | _ => none

end CompileError

end Lockstep
