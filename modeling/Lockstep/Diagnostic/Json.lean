import Lockstep.Diagnostic
import Lockstep.Statement.Json

/-!
# Diagnostics in JSON
-/

set_option autoImplicit false

namespace Lockstep.Diagnostic

def toJson (d : Diagnostic) : Json :=
  .obj [("code", .ofOption (fun code => .str code.text) d.code),
    ("level", .str d.severity.name),
    ("function", .ofOption .str d.function),
    ("location", .ofOption Location.toJson d.location),
    ("message", .str d.message),
    ("hint", .ofOption .str d.hint)]

end Lockstep.Diagnostic
