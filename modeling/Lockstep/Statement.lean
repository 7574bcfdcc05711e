import Lockstep.Expression
import Lockstep.Identifier

/-!
# Statements

The structured program of a lane: a list of statements, and around it functions and programs. Each
statement carries the place in the source text that it stems from.
-/

set_option autoImplicit false

namespace Lockstep

/-- A place in a source text. Lines count from 1; line 0 says that the place is not known. -/
structure Location where
  line : UInt32
  column : UInt32
deriving DecidableEq

namespace Location

/-- The place that is not known. -/
def unknown : Location := ⟨0, 0⟩

/-- Whether a place is known. -/
def isKnown (l : Location) : Bool := l.line != 0

/-- Places are written `line:column`. -/
def text (l : Location) : String := toString l.line.toNat ++ ":" ++ toString l.column.toNat

end Location

/-- What a call or an assignment is for. -/
inductive Purpose where
  /-- A pulse, or a value known before the program runs. -/
  | plain
  /-- The creation of a channel handle, of which nothing is left at run time. -/
  | channelCreation
  /-- A measurement. -/
  | measurement
  /-- A value computed while the program runs. -/
  | runtime
deriving DecidableEq

/-- A statement of a lane. -/
inductive Statement where
  /-- A call that schedules a pulse. -/
  | call (loc : Location) (call : Call) (purpose : Purpose)
  /-- An assignment. -/
  | assign (loc : Location) (target : String) (value : Expr) (purpose : Purpose)
  /-- A loop that runs while its test holds. -/
  | whileDo (loc : Location) (test : Expr) (body : List Statement)
  /-- A choice between two lists of statements. -/
  | ifElse (loc : Location) (test : Expr) (body orelse : List Statement)
  /-- Leave the innermost loop. -/
  | breakLoop (loc : Location)
  /-- Go on with the next round of the innermost loop. -/
  | continueLoop (loc : Location)
  /-- A loop that runs a fixed number of times. -/
  | repeatTimes (loc : Location) (count : UInt32) (body : List Statement)
  /-- Statements in a row. -/
  | sequential (loc : Location) (body : List Statement)
  /-- This lane's part of a block that several lanes run at the same time. -/
  | concurrent (loc : Location) (block : BlockId) (lanes : List LaneId) (body : List Statement)
  /-- A row of groups. -/
  | grouped (loc : Location) (groups : List Statement)
  /-- Statements for one lane only. -/
  | group (loc : Location) (lane : LaneId) (body : List Statement)

namespace Statement

/-- The place that a statement stems from. -/
def location : Statement → Location
  | call loc _ _ => loc
  | assign loc _ _ _ => loc
  | whileDo loc _ _ => loc
  | ifElse loc _ _ _ => loc
  | breakLoop loc => loc
  | continueLoop loc => loc
  | repeatTimes loc _ _ => loc
  | sequential loc _ => loc
  | concurrent loc _ _ _ => loc
  | grouped loc _ => loc
  | group loc _ _ => loc

/-- The same statement at another place. -/
def withLocation (loc : Location) : Statement → Statement
  | call _ c purpose => call loc c purpose
  | assign _ target value purpose => assign loc target value purpose
  | whileDo _ test body => whileDo loc test body
  | ifElse _ test body orelse => ifElse loc test body orelse
  | breakLoop _ => breakLoop loc
  | continueLoop _ => continueLoop loc
  | repeatTimes _ count body => repeatTimes loc count body
  | sequential _ body => sequential loc body
  | concurrent _ block lanes body => concurrent loc block lanes body
  | grouped _ groups => grouped loc groups
  | group _ lane body => group loc lane body

/-- A plain pulse. -/
def pulse (name : String) (duration : Duration) : Statement :=
  call .unknown ⟨name, [], duration⟩ .plain

/-- The assignment of a measured value. -/
def measure (target : String) (c : Call) : Statement :=
  assign .unknown target c.toExpr .measurement

end Statement

/-- The statements of one lane. -/
structure LaneBody where
  lane : LaneId
  body : List Statement

/-- A function: a list of statements for each of its lanes. -/
structure Function where
  name : String
  location : Location
  lanes : List LaneBody

/-- A function whose place is not known. -/
def Function.ofLanes (name : String) (lanes : List LaneBody) : Function := ⟨name, .unknown, lanes⟩

/-- The functions that are compiled together. -/
structure Program where
  functions : List Function

end Lockstep
