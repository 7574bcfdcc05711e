import Lockstep.Alignment.Json
import Lockstep.Compiler
import Lockstep.Schedule.Json

/-!
# Compiled functions in JSON

Compiled functions are written as an array of their schedules with their reports.
-/

set_option autoImplicit false

namespace Lockstep.CompiledFunction

def toJson (f : CompiledFunction) : Json :=
  .obj [("schedule", f.schedule.toJson), ("report", .ofOption Report.toJson f.report)]

/-- The document of a list of compiled functions. -/
def document (functions : List CompiledFunction) : String :=
  (Json.ofList toJson functions).pretty

end Lockstep.CompiledFunction
