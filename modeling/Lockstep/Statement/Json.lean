import Lockstep.Expression.Json
import Lockstep.Statement

/-!
# Statements in JSON

A statement is a record of its kind and its place; the kind is a tagged value whose tag is its
`stmt`. Statements inside a statement are inside a tagged value. As for expressions, the reader
descends at most as many levels as it is told.
-/

set_option autoImplicit false

namespace Lockstep

open Datum (Site)

namespace Location

def toJson (l : Location) : Json :=
  .obj [("line", .ofNat l.line.toNat), ("column", .ofNat l.column.toNat)]

def ofDatum? (d : Datum) : Option Location := do
  let fields ← d.fields? ["line", "column"]
  let line ← fields.required "line" Datum.uint32?
  let column ← fields.required "column" Datum.uint32?
  return { line, column }

end Location

namespace Purpose

/-- The name of a purpose. -/
def name : Purpose → String
  | plain => "plain"
  | channelCreation => "channel_creation"
  | measurement => "measurement"
  | runtime => "runtime"

/-- The purposes by name. -/
def choices : List (String × Purpose) :=
  [plain, channelCreation, measurement, runtime].map fun p => (p.name, p)

def toJson (p : Purpose) : Json := .str p.name

def ofDatum? (d : Datum) : Option Purpose := d.choice? .inner choices

end Purpose

namespace Statement

/-- All tags, in order. -/
def tags : List String :=
  ["expr", "assign", "while", "if", "break", "continue", "repeat", "sequential", "concurrent",
    "grouped", "group"]

/-- A statement from the members of its kind and its place. -/
def wrap (loc : Location) (tag : String) (members : List (String × Json)) : Json :=
  .obj [("kind", .obj (("stmt", .str tag) :: members)), ("location", loc.toJson)]

mutual

def toJson : Statement → Json
  | call loc c purpose => wrap loc "expr" [("call", c.toJson), ("class", purpose.toJson)]
  | assign loc target value purpose =>
    wrap loc "assign"
      [("target", .str target), ("value", value.toJson), ("class", purpose.toJson)]
  | whileDo loc test body =>
    wrap loc "while" [("test", test.toJson), ("body", .arr (listToJson body))]
  | ifElse loc test body orelse =>
    wrap loc "if"
      [("test", test.toJson), ("body", .arr (listToJson body)),
        ("orelse", .arr (listToJson orelse))]
  | breakLoop loc => wrap loc "break" []
  | continueLoop loc => wrap loc "continue" []
  | repeatTimes loc count body =>
    wrap loc "repeat" [("count", .ofNat count.toNat), ("body", .arr (listToJson body))]
  | sequential loc body => wrap loc "sequential" [("body", .arr (listToJson body))]
  | concurrent loc block lanes body =>
    wrap loc "concurrent"
      [("block", block.toJson), ("lanes", .ofList LaneId.toJson lanes),
        ("body", .arr (listToJson body))]
  | grouped loc groups => wrap loc "grouped" [("groups", .arr (listToJson groups))]
  | group loc lane body =>
    wrap loc "group" [("lane", lane.toJson), ("body", .arr (listToJson body))]

def listToJson : List Statement → List Json
  | [] => []
  | s :: ss => s.toJson :: listToJson ss

end

/-- The statement with a tag, a content and a place; the statements inside it are read by `inner`.
-/
def ofTagged? (inner : Datum → Option Statement) (loc : Location) (tag : String) (content : Datum) :
    Option Statement :=
  match tag with
  | "expr" => do
    let fields ← content.fields? ["call", "class"]
    let c ← fields.required "call" (Call.ofDatum? .inner)
    let purpose ← fields.optional "class" .plain Purpose.ofDatum?
    return call loc c purpose
  | "assign" => do
    let fields ← content.fields? ["target", "value", "class"]
    let target ← fields.required "target" Datum.string?
    let value ← fields.required "value" (Expr.ofDatum? .inner)
    let purpose ← fields.optional "class" .plain Purpose.ofDatum?
    return assign loc target value purpose
  | "while" => do
    let fields ← content.fields? ["test", "body"]
    let test ← fields.required "test" (Expr.ofDatum? .inner)
    let body ← fields.required "body" (Datum.list? inner)
    return whileDo loc test body
  | "if" => do
    let fields ← content.fields? ["test", "body", "orelse"]
    let test ← fields.required "test" (Expr.ofDatum? .inner)
    let body ← fields.required "body" (Datum.list? inner)
    let orelse ← fields.optional "orelse" [] (Datum.list? inner)
    return ifElse loc test body orelse
  | "break" => if content.isBare then some (breakLoop loc) else none
  | "continue" => if content.isBare then some (continueLoop loc) else none
  | "repeat" => do
    let fields ← content.fields? ["count", "body"]
    let count ← fields.required "count" Datum.uint32?
    let body ← fields.required "body" (Datum.list? inner)
    return repeatTimes loc count body
  | "sequential" => do
    let fields ← content.fields? ["body"]
    let body ← fields.required "body" (Datum.list? inner)
    return sequential loc body
  | "concurrent" => do
    let fields ← content.fields? ["block", "lanes", "body"]
    let block ← fields.required "block" BlockId.ofDatum?
    let lanes ← fields.required "lanes" (Datum.list? LaneId.ofDatum?)
    let body ← fields.required "body" (Datum.list? inner)
    return concurrent loc block lanes body
  | "grouped" => do
    let fields ← content.fields? ["groups"]
    let groups ← fields.required "groups" (Datum.list? inner)
    return grouped loc groups
  | "group" => do
    let fields ← content.fields? ["lane", "body"]
    let lane ← fields.required "lane" LaneId.ofDatum?
    let body ← fields.required "body" (Datum.list? inner)
    return group loc lane body
  | _ => none

/-- A statement of at most `levels` levels. -/
def read : (site : Site) → (levels : Nat) → Datum → Option Statement
  | _, 0, _ => none
  | site, levels + 1, d => do
    let fields ← d.fields? ["kind", "location"]
    let (tag, content) ← fields.required "kind" (Datum.tagged? site "stmt" tags)
    let loc ← fields.optional "location" .unknown Location.ofDatum?
    ofTagged? (fun s => read .inner levels s) loc tag content

def ofDatum? (d : Datum) : Option Statement := read .outer d.nesting d

end Statement

namespace LaneBody

def toJson (l : LaneBody) : Json :=
  .obj [("lane", l.lane.toJson), ("body", .arr (Statement.listToJson l.body))]

def ofDatum? (d : Datum) : Option LaneBody := do
  let fields ← d.fields? ["lane", "body"]
  let lane ← fields.required "lane" LaneId.ofDatum?
  let body ← fields.required "body" (Datum.list? Statement.ofDatum?)
  return { lane, body }

end LaneBody

namespace Function

def toJson (f : Function) : Json :=
  .obj [("name", .str f.name), ("location", f.location.toJson),
    ("lanes", .ofList LaneBody.toJson f.lanes)]

def ofDatum? (d : Datum) : Option Function := do
  let fields ← d.fields? ["name", "location", "lanes"]
  let name ← fields.required "name" Datum.string?
  let location ← fields.optional "location" .unknown Location.ofDatum?
  let lanes ← fields.required "lanes" (Datum.list? LaneBody.ofDatum?)
  return { name, location, lanes }

end Function

namespace Program

def toJson (p : Program) : Json := .obj [("functions", .ofList Function.toJson p.functions)]

def ofDatum? (d : Datum) : Option Program := do
  let fields ← d.fields? ["functions"]
  let functions ← fields.required "functions" (Datum.list? Function.ofDatum?)
  return { functions }

end Program

end Lockstep
