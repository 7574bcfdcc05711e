import Lockstep.Segment
import Lockstep.Statement

/-!
# Lowering

Statements become instructions with labels and jumps. Loops and choices take a fresh index for their
labels; a loop that runs a fixed number of times becomes a subroutine around the counted loop of the
hardware.

```text
while t: B                  if t: B else: E            repeat(n): B
  while_k:                    goto if_k if t             call rstart_k
  goto endwhile_k if not t    E                          goto rend_k
  B                           goto endif_k             rstart_k:
  goto while_k              if_k:                        load_repeat n
endwhile_k:                   B                        rloop_k:
                            endif_k:                     B
                                                       rrepeat_k:
                                                         repeat rloop_k
                                                       rreturn_k:
                                                         return
                                                       rend_k:
```

A `Lowerer` carries the label supply and the loops around the current statement from one lowering to
the next; indices taken before an error stay taken.
-/

set_option autoImplicit false

namespace Lockstep

/-- Why statements cannot be lowered. -/
inductive LoweringError where
  /-- A test that is no single comparison. -/
  | unsupportedTest (test : String) (location : Location)
  /-- A statement that belongs into a loop stands outside of all loops. -/
  | noEnclosingLoop (keyword : String) (location : Location)
  /-- A member of a grouped statement is no group. -/
  | invalidGroup (location : Location)
  /-- The label supply refused. -/
  | label (error : LabelError)
deriving DecidableEq

namespace LoweringError

/-- The text of an error. -/
def message : LoweringError → String
  | unsupportedTest test location =>
    "Unsupported test '" ++ test ++ "' at " ++ location.text ++
      ": expected a name, a call, `not name`, or a comparison of a name against a literal"
  | noEnclosingLoop keyword location =>
    "'" ++ keyword ++ "' outside of a loop at " ++ location.text
  | invalidGroup location =>
    "Grouped block at " ++ location.text ++
      " contains a statement that is not a single-lane group"
  | label error => error.message

/-- The place of the offending statement. -/
def location? : LoweringError → Option Location
  | unsupportedTest _ location => some location
  | noEnclosingLoop _ location => some location
  | invalidGroup location => some location
  | label _ => none

end LoweringError

/-! ## Tests -/

/-- The relations that a test may use. -/
def Relation.isTestable : Relation → Bool
  | .eq | .ne | .gt | .lt => true
  | .ge | .le => false

/-- The comparison that a test amounts to: a name or a call is compared with zero, and a name may be
compared with a literal. -/
def Expr.comparison? : Expr → Option Comparison
  | .var name => some ⟨name, .ne, 0⟩
  | .call callee args duration => some ⟨(Expr.call callee args duration).text, .ne, 0⟩
  | .not (.var name) => some ⟨name, .eq, 0⟩
  | .compare (.var name) relation (.int value) =>
    if relation.isTestable then some ⟨name, relation, value⟩ else none
  | .compare (.var name) relation (.bool value) =>
    if relation.isTestable then some ⟨name, relation, if value then 1 else 0⟩ else none
  | _ => none

/-- The comparison that a test at a place amounts to. -/
def Expr.comparison (test : Expr) (location : Location) : Except LoweringError Comparison :=
  match test.comparison? with
  | some c => .ok c
  | none => .error (.unsupportedTest test.text location)

/-- When a loop is left before its body. -/
inductive LoopExit where
  | never
  | always
  | when (test : Comparison)
deriving DecidableEq

/-- When a loop with a test is left before its body. -/
def LoopExit.ofTest (test : Expr) (location : Location) : Except LoweringError LoopExit :=
  match test.constTruth? with
  | some true => .ok .never
  | some false => .ok .always
  | none => (test.comparison location).map fun c => .when c.inverse

/-! ## The shapes of control flow -/

/-- The labels that `continue` and `break` go to. -/
structure LoopLabels where
  continueTo : Label
  breakTo : Label
deriving DecidableEq

/-- The stems of the labels of a loop with a test. -/
def whileStems : List String := ["while", "endwhile"]

/-- The stems of the labels of a choice. -/
def ifStems : List String := ["if", "endif"]

/-- The stems of the labels of a counted loop. -/
def repeatStems : List String := ["rstart", "rloop", "rrepeat", "rreturn", "rend"]

/-- Where the body of a loop with a test goes on and where it leaves to. -/
def whileLabels (k : Nat) : LoopLabels := ⟨.indexed "while" k, .indexed "endwhile" k⟩

/-- Where the body of a counted loop goes on and where it leaves to. -/
def repeatLabels (k : Nat) : LoopLabels := ⟨.indexed "rrepeat" k, .indexed "rreturn" k⟩

/-- The jump out of a loop before its body. -/
def LoopExit.code (exit : LoopExit) (target : Label) : List Instruction :=
  match exit with
  | .never => []
  | .always => [.goto target]
  | .when test => [.gotoIf test target]

/-- A loop with a test around its lowered body. -/
def whileShape (k : Nat) (exit : LoopExit) (body : List Segment) : List Segment :=
  Segment.ops (.label (.indexed "while" k) :: exit.code (.indexed "endwhile" k)) ++ body ++
    Segment.ops [.goto (.indexed "while" k), .label (.indexed "endwhile" k)]

/-- A choice around its two lowered branches. -/
def ifShape (k : Nat) (test : Comparison) (body orelse : List Segment) : List Segment :=
  Segment.ops [.gotoIf test (.indexed "if" k)] ++ orelse ++
    Segment.ops [.goto (.indexed "endif" k), .label (.indexed "if" k)] ++ body ++
    Segment.ops [.label (.indexed "endif" k)]

/-- A counted loop around its lowered body. -/
def repeatShape (k : Nat) (count : UInt32) (body : List Segment) : List Segment :=
  Segment.ops [.call (.indexed "rstart" k), .goto (.indexed "rend" k),
    .label (.indexed "rstart" k), .loadRepeat count, .label (.indexed "rloop" k)] ++ body ++
    Segment.ops [.label (.indexed "rrepeat" k), .repeatFrom (.indexed "rloop" k),
      .label (.indexed "rreturn" k), .ret, .label (.indexed "rend" k)]

/-- What is left of a call. -/
def callShape (call : Call) : Purpose → List Segment
  | .channelCreation => []
  | _ => Segment.ops [.pulse call.callee call.duration]

/-- What is left of an assignment. -/
def assignShape (target : String) (value : Expr) : Purpose → List Segment
  | .plain | .channelCreation => []
  | .runtime => Segment.ops [.store target value.text]
  | .measurement =>
    match value with
    | .call callee _ duration => Segment.ops [.pulse callee duration]
    | _ => Segment.ops [.store target value.text]

/-! ## Lowering -/

/-- What one lowering hands on to the next. -/
structure Lowerer where
  /-- Where labels come from. -/
  supply : LabelSupply
  /-- The loops around the current statement, innermost first. -/
  loops : List LoopLabels
deriving DecidableEq

/-- A lowering: it may fail, and it keeps the lowerer as it is then. -/
abbrev Lowering := ExceptT LoweringError (StateM Lowerer)

namespace Lowering

/-- Take an index for labels with the given stems. -/
def takeIndex (stems : List String) : Lowering Nat := fun s =>
  match s.supply.takeLabels stems with
  | (.ok _, supply) => (.ok s.supply.next, { s with supply })
  | (.error e, supply) => (.error (.label e), { s with supply })

/-- Lower the body of a loop. The loop is closed again also when that fails. -/
def withinLoop {α : Type} (labels : LoopLabels) (body : Lowering α) : Lowering α := fun s =>
  let (result, s) := body { s with loops := labels :: s.loops }
  (result, { s with loops := s.loops.tail })

/-- The labels of the innermost loop. -/
def innermostLoop (keyword : String) (location : Location) : Lowering LoopLabels := fun s =>
  match s.loops with
  | labels :: _ => (.ok labels, s)
  | [] => (.error (.noEnclosingLoop keyword location), s)

end Lowering

open Lowering

mutual

/-- Lower one statement. -/
def Statement.lower : Statement → Lowering (List Segment)
  | .call _ call purpose => return callShape call purpose
  | .assign _ target value purpose => return assignShape target value purpose
  | .whileDo location test body => do
    let exit ← LoopExit.ofTest test location
    let k ← takeIndex whileStems
    let inner ← withinLoop (whileLabels k) (lowerAll body)
    return whileShape k exit inner
  | .ifElse location test body orelse => do
    let test ← test.comparison location
    let k ← takeIndex ifStems
    let otherwise ← lowerAll orelse
    let inner ← lowerAll body
    return ifShape k test inner otherwise
  | .breakLoop location => do
    let labels ← innermostLoop "break" location
    return Segment.ops [.goto labels.breakTo]
  | .continueLoop location => do
    let labels ← innermostLoop "continue" location
    return Segment.ops [.goto labels.continueTo]
  | .repeatTimes _ count body => do
    let k ← takeIndex repeatStems
    let inner ← withinLoop (repeatLabels k) (lowerAll body)
    return repeatShape k count inner
  | .sequential _ body => lowerAll body
  | .concurrent _ block lanes body => do
    let inner ← lowerAll body
    return [.concurrent block lanes inner]
  | .grouped _ groups => lowerGroups groups
  | .group _ lane body => do
    let inner ← lowerAll body
    return [.group lane inner]

/-- Lower statements in a row. -/
def lowerAll : List Statement → Lowering (List Segment)
  | [] => return []
  | s :: rest => do
    let first ← s.lower
    let others ← lowerAll rest
    return first ++ others

/-- Lower the members of a grouped statement, which must be groups. -/
def lowerGroups : List Statement → Lowering (List Segment)
  | [] => return []
  | .group _ lane body :: rest => do
    let inner ← lowerAll body
    let others ← lowerGroups rest
    return .group lane inner :: others
  | s :: _ => throw (.invalidGroup s.location)

end

namespace Lowerer

/-- A lowerer outside of all loops. -/
def new (supply : LabelSupply) : Lowerer := ⟨supply, []⟩

/-- Lower a list of statements. -/
def lower (s : Lowerer) (body : List Statement) :
    Except LoweringError (List Segment) × Lowerer :=
  lowerAll body s

end Lowerer

end Lockstep
