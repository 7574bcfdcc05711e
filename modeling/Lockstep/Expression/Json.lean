import Lockstep.Expression
import Lockstep.Instruction.Json

/-!
# Expressions in JSON

An expression is an object with one key that says what it is. The reader descends at most as many
levels as it is told; `Expr.ofDatum?` tells it the nesting of the value, which is enough for any.
-/

set_option autoImplicit false

namespace Lockstep

open Datum (Site)

namespace BinaryOp

/-- The name of an operation. -/
def name : BinaryOp → String
  | add => "add"
  | sub => "sub"
  | mul => "mul"
  | div => "div"
  | and => "and"
  | or => "or"

/-- The operations by name. -/
def choices : List (String × BinaryOp) := [add, sub, mul, div, and, or].map fun o => (o.name, o)

def toJson (op : BinaryOp) : Json := .str op.name

def ofDatum? (site : Site) (d : Datum) : Option BinaryOp := d.choice? site choices

end BinaryOp

namespace Call

/-- A call, its arguments read by `arg`. -/
def readWith (arg : Datum → Option Expr) (d : Datum) : Option Call := do
  let fields ← d.fields? ["name", "args", "duration"]
  let callee ← fields.required "name" Datum.string?
  let args ← fields.optional "args" [] (Datum.list? arg)
  let duration ← fields.optional "duration" .zero Datum.duration?
  return { callee, args, duration }

end Call

namespace Expr

mutual

def toJson : Expr → Json
  | bool value => .obj [("bool", .bool value)]
  | int value => .obj [("int", .int value.toInt)]
  | var name => .obj [("name", .str name)]
  | call callee args duration =>
    .obj [("call", .obj [("name", .str callee), ("args", .arr (listToJson args)),
      ("duration", duration.toJson)])]
  | not inner => .obj [("not", inner.toJson)]
  | compare left relation right =>
    .obj [("compare", .obj [("left", left.toJson), ("op", relation.toJson),
      ("right", right.toJson)])]
  | binary left op right =>
    .obj [("binary", .obj [("left", left.toJson), ("op", op.toJson), ("right", right.toJson)])]

def listToJson : List Expr → List Json
  | [] => []
  | e :: es => e.toJson :: listToJson es

end

/-- The kinds of expressions, in order. -/
def kinds : List String := ["bool", "int", "name", "call", "not", "compare", "binary"]

/-- An expression of at most `levels` levels. -/
def read (site : Site) : (levels : Nat) → Datum → Option Expr
  | 0, _ => none
  | levels + 1, d => do
    let (kind, content) ← d.variant? kinds
    match kind with
    | "bool" => return bool (← content.bool?)
    | "int" => return int (← content.int64?)
    | "name" => return var (← content.string?)
    | "call" => do
      let c ← Call.readWith (fun arg => read site levels arg) content
      return c.toExpr
    | "not" => return not (← read site levels content)
    | "compare" => do
      let fields ← content.fields? ["left", "op", "right"]
      let left ← fields.required "left" fun e => read site levels e
      let relation ← fields.required "op" (Relation.ofDatum? site)
      let right ← fields.required "right" fun e => read site levels e
      return compare left relation right
    | "binary" => do
      let fields ← content.fields? ["left", "op", "right"]
      let left ← fields.required "left" fun e => read site levels e
      let op ← fields.required "op" (BinaryOp.ofDatum? site)
      let right ← fields.required "right" fun e => read site levels e
      return binary left op right
    | _ => none

def ofDatum? (site : Site) (d : Datum) : Option Expr := read site d.nesting d

end Expr

namespace Call

def toJson (c : Call) : Json :=
  .obj [("name", .str c.callee), ("args", .arr (Expr.listToJson c.args)),
    ("duration", c.duration.toJson)]

def ofDatum? (site : Site) (d : Datum) : Option Call := readWith (Expr.ofDatum? site) d

end Call

end Lockstep
