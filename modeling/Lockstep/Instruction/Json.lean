import Lockstep.Instruction
import Lockstep.Datum.Fields
import Lockstep.Json

/-!
# Instructions in JSON

An instruction is a tagged value whose tag is its `op`; identifiers are their numbers and labels
their names.
-/

set_option autoImplicit false

namespace Lockstep

open Datum (Site)

/-! ## Identifiers and labels -/

def LaneId.toJson (lane : LaneId) : Json := .ofNat lane.index.toNat

def LaneId.ofDatum? (d : Datum) : Option LaneId := d.uint32?.map LaneId.mk

def BarrierId.toJson (barrier : BarrierId) : Json := .ofNat barrier.index.toNat

def BarrierId.ofDatum? (d : Datum) : Option BarrierId := d.uint32?.map BarrierId.mk

def BlockId.toJson (block : BlockId) : Json := .ofNat block.index.toNat

def BlockId.ofDatum? (d : Datum) : Option BlockId := d.uint32?.map BlockId.mk

def Label.toJson (label : Label) : Json := .str label.name

def Label.ofDatum? (d : Datum) : Option Label := d.string?.map Label.mk

def Duration.toJson (d : Duration) : Json := .ofNat d.ticks

/-! ## Comparisons -/

namespace Relation

/-- The name of a relation. -/
def name : Relation → String
  | eq => "eq"
  | ne => "ne"
  | gt => "gt"
  | lt => "lt"
  | ge => "ge"
  | le => "le"

/-- The relations by name. -/
def choices : List (String × Relation) := [eq, ne, gt, lt, ge, le].map fun r => (r.name, r)

def toJson (r : Relation) : Json := .str r.name

def ofDatum? (site : Site) (d : Datum) : Option Relation := d.choice? site choices

end Relation

namespace Comparison

def toJson (c : Comparison) : Json :=
  .obj [("operand", .str c.operand), ("op", c.relation.toJson), ("value", .int c.value.toInt)]

def ofDatum? (site : Site) (d : Datum) : Option Comparison := do
  let fields ← d.fields? ["operand", "op", "value"]
  let operand ← fields.required "operand" Datum.string?
  let relation ← fields.required "op" (Relation.ofDatum? site)
  let value ← fields.required "value" Datum.int64?
  return { operand, relation, value }

end Comparison

/-! ## Instructions -/

namespace Instruction

/-- The tag of an instruction. -/
def tag : Instruction → String
  | pulse _ _ => "pulse"
  | delay _ => "delay"
  | store _ _ => "store"
  | label _ => "block_label"
  | goto _ => "goto"
  | gotoIf _ _ => "conditional_goto"
  | call _ => "call"
  | ret => "return"
  | loadRepeat _ => "load_repeat"
  | repeatFrom _ => "repeat"
  | barrier _ _ => "barrier"
  | sync => "sync"
  | wait => "wait"
  | compare _ => "compare"
  | loadCompare => "load_cmp"

/-- All tags. -/
def tags : List String :=
  ["pulse", "delay", "store", "block_label", "goto", "conditional_goto", "call", "return",
    "load_repeat", "repeat", "barrier", "sync", "wait", "compare", "load_cmp"]

/-- The members of an instruction besides its tag. -/
def members : Instruction → List (String × Json)
  | pulse name duration => [("name", .str name), ("duration", duration.toJson)]
  | delay duration => [("duration", duration.toJson)]
  | store dest source => [("dest", .str dest), ("source", .str source)]
  | label name => [("name", name.toJson)]
  | goto target => [("target", target.toJson)]
  | gotoIf test target => [("comparison", test.toJson), ("target", target.toJson)]
  | call target => [("target", target.toJson)]
  | ret => []
  | loadRepeat count => [("count", .ofNat count.toNat)]
  | repeatFrom target => [("target", target.toJson)]
  | barrier id lanes => [("id", id.toJson), ("lanes", .ofList LaneId.toJson lanes)]
  | sync => []
  | wait => []
  | compare test => [("comparison", test.toJson)]
  | loadCompare => []

def toJson (i : Instruction) : Json := .obj (("op", .str i.tag) :: i.members)

/-- An instruction that has a target and nothing else. -/
def jumpOfDatum? (make : Label → Instruction) (content : Datum) : Option Instruction := do
  let fields ← content.fields? ["target"]
  return make (← fields.required "target" Label.ofDatum?)

/-- An instruction without fields. -/
def bareOfDatum? (i : Instruction) (content : Datum) : Option Instruction :=
  if content.isBare then some i else none

/-- The instruction with a tag and a content. -/
def ofTagged? (tag : String) (content : Datum) : Option Instruction :=
  match tag with
  | "pulse" => do
    let fields ← content.fields? ["name", "duration"]
    let name ← fields.required "name" Datum.string?
    let duration ← fields.required "duration" Datum.duration?
    return pulse name duration
  | "delay" => do
    let fields ← content.fields? ["duration"]
    return delay (← fields.required "duration" Datum.duration?)
  | "store" => do
    let fields ← content.fields? ["dest", "source"]
    let dest ← fields.required "dest" Datum.string?
    let source ← fields.required "source" Datum.string?
    return store dest source
  | "block_label" => do
    let fields ← content.fields? ["name"]
    return label (← fields.required "name" Label.ofDatum?)
  | "goto" => jumpOfDatum? goto content
  | "conditional_goto" => do
    let fields ← content.fields? ["comparison", "target"]
    let test ← fields.required "comparison" (Comparison.ofDatum? .inner)
    let target ← fields.required "target" Label.ofDatum?
    return gotoIf test target
  | "call" => jumpOfDatum? call content
  | "return" => bareOfDatum? ret content
  | "load_repeat" => do
    let fields ← content.fields? ["count"]
    return loadRepeat (← fields.required "count" Datum.uint32?)
  | "repeat" => jumpOfDatum? repeatFrom content
  | "barrier" => do
    let fields ← content.fields? ["id", "lanes"]
    let id ← fields.required "id" BarrierId.ofDatum?
    let lanes ← fields.required "lanes" (Datum.list? LaneId.ofDatum?)
    return barrier id lanes
  | "sync" => bareOfDatum? sync content
  | "wait" => bareOfDatum? wait content
  | "compare" => do
    let fields ← content.fields? ["comparison"]
    return compare (← fields.required "comparison" (Comparison.ofDatum? .inner))
  | "load_cmp" => bareOfDatum? loadCompare content
  | _ => none

def ofDatum? (d : Datum) : Option Instruction := do
  let (tag, content) ← d.tagged? .outer "op" tags
  ofTagged? tag content

end Instruction

end Lockstep
