import Lockstep.CompileError

/-!
# Diagnostics

What is reported to the author of a program: a message with its severity, a stable code, the
function and the place that it concerns, and a hint.
-/

set_option autoImplicit false

namespace Lockstep

/-- How serious a diagnostic is. -/
inductive Severity where
  /-- The program is still compiled. -/
  | warning
  /-- The function is not compiled. -/
  | error
  /-- The compiler itself is at fault. -/
  | fatal
deriving DecidableEq

namespace Severity

/-- The name of a severity. -/
def name : Severity → String
  | warning => "warning"
  | error => "error"
  | fatal => "fatal"

/-- Whether output is held back. -/
def blocks : Severity → Bool
  | warning => false
  | error | fatal => true

end Severity

/-- What a diagnostic is about. -/
inductive DiagnosticCode where
  | labelStem
  | schedule
  | unsupportedTest
  | noEnclosingLoop
  | invalidGroup
  | mismatchedBarriers
  | timing
  | barrierRemaining
  | undefinedLabel
  | duplicateLabel
deriving DecidableEq

/-- The stable text of a code. -/
def DiagnosticCode.text : DiagnosticCode → String
  | labelStem => "Q0001"
  | schedule => "Q0002"
  | unsupportedTest => "Q0101"
  | noEnclosingLoop => "Q0102"
  | invalidGroup => "Q0103"
  | mismatchedBarriers => "Q0201"
  | timing => "Q0301"
  | barrierRemaining => "Q0401"
  | undefinedLabel => "Q0402"
  | duplicateLabel => "Q0403"

/-- A message to the author of a program. -/
structure Diagnostic where
  code : Option DiagnosticCode := none
  severity : Severity
  function : Option String := none
  location : Option Location := none
  message : String
  hint : Option String := none
deriving DecidableEq

namespace Diagnostic

/-- Attach a place. A place that is not known is not attached. -/
def withLocation (d : Diagnostic) (location : Location) : Diagnostic :=
  if location.isKnown then { d with location := some location } else d

/-- Attach a place if none is attached yet. -/
def orLocation (d : Diagnostic) (location : Location) : Diagnostic :=
  if d.location.isSome then d else d.withLocation location

/-- Whether output is held back. -/
def isError (d : Diagnostic) : Bool := d.severity.blocks

/-- The code and severity of an error. -/
def classify : CompileError → DiagnosticCode × Severity
  | .label _ | .lowering (.label _) => (.labelStem, .fatal)
  | .lowering (.unsupportedTest _ _) => (.unsupportedTest, .error)
  | .lowering (.noEnclosingLoop _ _) => (.noEnclosingLoop, .error)
  | .lowering (.invalidGroup _) => (.invalidGroup, .error)
  | .schedule _ => (.schedule, .error)
  | .timing _ => (.timing, .fatal)
  | .barrierRemaining _ _ => (.barrierRemaining, .fatal)
  | .undefinedLabel _ _ => (.undefinedLabel, .fatal)
  | .duplicateLabel _ _ => (.duplicateLabel, .fatal)

/-- What the author can do about an error. -/
def hintFor : CompileError → Option String
  | .lowering (.unsupportedTest _ _) =>
    some "assign the value to a variable and test the variable, e.g. `m = MEAS(q); if m > 1:`"
  | .timing _ | .barrierRemaining _ _ =>
    some "this is a compiler bug; please report it with the input program"
  | _ => none

/-- The diagnostic of an error. -/
def ofError (e : CompileError) : Diagnostic :=
  let (code, severity) := classify e
  let d : Diagnostic := { code := some code, severity, message := e.message, hint := hintFor e }
  match e.location? with
  | some location => d.withLocation location
  | none => d

/-- The line with the message. -/
def headline (d : Diagnostic) : String :=
  let code := match d.code with
    | some code => "[" ++ code.text ++ "]"
    | none => ""
  d.severity.name ++ code ++ ": " ++ d.message

/-- The line that says what the diagnostic concerns. -/
def place? (d : Diagnostic) : Option String :=
  match d.function, d.location with
  | some function, some location => some ("  --> in '" ++ function ++ "' at " ++ location.text)
  | some function, none => some ("  --> in '" ++ function ++ "'")
  | none, some location => some ("  --> at " ++ location.text)
  | none, none => none

/-- The lines of a diagnostic. -/
def lines (d : Diagnostic) : List String :=
  d.headline :: d.place?.toList ++ (d.hint.map ("  hint: " ++ ·)).toList

/-- The text of a diagnostic. -/
def text (d : Diagnostic) : String := "\n".intercalate d.lines

end Diagnostic

end Lockstep
