import Lockstep.Instruction.Json
import Lockstep.Json.Printer
import Lockstep.Json.Reader
import Lockstep.Schedule

/-!
# Schedules in JSON

Schedules are exchanged as JSON documents, written over lines and read strictly.
-/

set_option autoImplicit false

namespace Lockstep

namespace Lane

def toJson (lane : Lane) : Json :=
  .obj [("lane", lane.id.toJson), ("instructions", .ofList Instruction.toJson lane.code)]

def ofDatum? (d : Datum) : Option Lane := do
  let fields ← d.fields? ["lane", "instructions"]
  let id ← fields.required "lane" LaneId.ofDatum?
  let code ← fields.required "instructions" (Datum.list? Instruction.ofDatum?)
  return { id, code }

end Lane

namespace Schedule

def toJson (s : Schedule) : Json :=
  .obj [("name", .str s.name), ("lanes", .ofList Lane.toJson s.lanes)]

def ofDatum? (d : Datum) : Option Schedule := do
  let fields ← d.fields? ["name", "lanes"]
  let name ← fields.required "name" Datum.string?
  let lanes ← fields.required "lanes" (Datum.list? Lane.ofDatum?)
  return { name, lanes }

/-- The document of a schedule. -/
def document (s : Schedule) : String := s.toJson.pretty

/-- The schedule of a document. The lanes are taken as they stand. -/
def ofDocument? (text : String) : Option Schedule := do ofDatum? (← Json.parse? text)

end Schedule

end Lockstep
