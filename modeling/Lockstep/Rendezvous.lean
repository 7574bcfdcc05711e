import Lockstep.Schedule
import Lockstep.Segment

/-!
# Rendezvous

Every concurrent block of a function gets a point before it and a point after it in every lane of
the function, also in the lanes that take no part in it: an idle lane has the two points side by
side. So all lanes meet in the same order, which is that of the block numbers. The first point of
all may be the hardware's `wait`, which is the trigger that starts the lanes.
-/

set_option autoImplicit false

namespace Lockstep

/-- A concurrent block and the lanes that were declared for it. -/
structure Meeting where
  block : BlockId
  lanes : List LaneId
deriving DecidableEq

/-- Add a lane to a list of lanes in ascending order. -/
def insertLane (lane : LaneId) : List LaneId → List LaneId
  | [] => [lane]
  | l :: ls =>
    if lane.index < l.index then lane :: l :: ls
    else if lane = l then l :: ls
    else l :: insertLane lane ls

/-- The meetings of a function in ascending order of their blocks. -/
abbrev Roster := List Meeting

namespace Roster

/-- Add lanes to a block, or the block itself if it is new. -/
def enroll (block : BlockId) (lanes : List LaneId) : Roster → Roster
  | [] => [⟨block, lanes.foldr insertLane []⟩]
  | m :: ms =>
    if block.index < m.block.index then ⟨block, lanes.foldr insertLane []⟩ :: m :: ms
    else if block = m.block then ⟨block, lanes.foldr insertLane m.lanes⟩ :: ms
    else m :: enroll block lanes ms

mutual

/-- Add the blocks of a segment. -/
def collect (roster : Roster) : Segment → Roster
  | .op _ => roster
  | .concurrent block lanes body => collectAll (enroll block lanes roster) body
  | .group _ body => collectAll roster body

/-- Add the blocks of segments in a row. -/
def collectAll (roster : Roster) : List Segment → Roster
  | [] => roster
  | s :: rest => collectAll (collect roster s) rest

end

/-- The blocks of all lanes of a function. -/
def ofLanes (lanes : List (LaneId × List Segment)) : Roster :=
  lanes.foldl (fun roster lane => collectAll roster lane.2) []

/-- The position of a block among the meetings. -/
def position? (roster : Roster) (block : BlockId) : Option Nat :=
  roster.findIdx? (·.block = block)

end Roster

/-- How the points of one lane are placed. -/
structure Placement where
  /-- The lane. -/
  lane : LaneId
  /-- The meetings of the function. -/
  roster : Roster
  /-- Whether the first point of all is a `wait`. -/
  initialWait : Bool

namespace Placement

/-- The barrier with a number at a meeting. -/
def barrier (p : Placement) (meeting number : Nat) : Instruction :=
  .barrier ⟨UInt32.ofNat number⟩ ((p.roster[meeting]?.map Meeting.lanes).getD [])

/-- The point before a meeting. -/
def startPoint (p : Placement) (k : Nat) : Instruction :=
  if p.initialWait ∧ k = 0 then .wait else p.barrier k (2 * k)

/-- The point after a meeting. -/
def endPoint (p : Placement) (k : Nat) : Instruction := p.barrier k (2 * k + 1)

/-- The points of the meetings from `next` up to `stop`, which the lane sits out. -/
def idle (p : Placement) (next stop : Nat) : List Instruction :=
  (List.range' next (stop - next)).flatMap fun k => [p.startPoint k, p.endPoint k]

mutual

/-- The instructions of a segment when the meetings before `next` are over, and the meetings that
are over after it. A block that comes out of order is placed without idling. -/
def emit (p : Placement) (next : Nat) : Segment → List Instruction × Nat
  | .op i => ([i], next)
  | .group lane body => if lane = p.lane then emitAll p next body else ([], next)
  | .concurrent block _ body =>
    match p.roster.position? block with
    | none => ([], next)
    | some k =>
      let (inner, next') := emitAll p (max next (k + 1)) body
      (p.idle next k ++ p.startPoint k :: inner ++ [p.endPoint k], next')

/-- The instructions of segments in a row. -/
def emitAll (p : Placement) (next : Nat) : List Segment → List Instruction × Nat
  | [] => ([], next)
  | s :: rest =>
    let (first, next) := emit p next s
    let (others, next) := emitAll p next rest
    (first ++ others, next)

end

/-- The instructions of a whole lane. -/
def code (p : Placement) (segments : List Segment) : List Instruction :=
  let (code, next) := p.emitAll 0 segments
  code ++ p.idle next p.roster.length

end Placement

/-- Place the points in all lanes of a function. -/
def placeBarriers (initialWait : Bool) (lanes : List (LaneId × List Segment)) : List Lane :=
  let roster := Roster.ofLanes lanes
  lanes.map fun (lane, segments) => ⟨lane, Placement.code ⟨lane, roster, initialWait⟩ segments⟩

end Lockstep
