import Lockstep.Instruction

/-!
# Schedules

A lane is a list of instructions; a schedule holds the lanes of one function in the order in which
they were declared. `Schedule.addLane` keeps the lanes apart.
-/

set_option autoImplicit false

namespace Lockstep

/-- The instructions of one lane. -/
structure Lane where
  id : LaneId
  code : List Instruction
deriving DecidableEq

namespace Lane

/-- A lane without instructions. -/
def empty (id : LaneId) : Lane := ⟨id, []⟩

/-- Add an instruction at the end. -/
def push (lane : Lane) (i : Instruction) : Lane := { lane with code := lane.code ++ [i] }

/-- The number of barriers. -/
def barrierCount (lane : Lane) : Nat := lane.code.countP Instruction.isBarrier

/-- The positions of the barriers in a list of instructions that starts at a position. -/
def barriersFrom (position : Nat) : List Instruction → List Nat
  | [] => []
  | i :: code =>
    if i.isBarrier then position :: barriersFrom (position + 1) code
    else barriersFrom (position + 1) code

/-- The positions of the barriers, in order. -/
def barrierPositions (lane : Lane) : List Nat := barriersFrom 0 lane.code

/-- The sum of the durations of all instructions, whatever the control flow. -/
def straightLineTicks (lane : Lane) : Nat :=
  lane.code.foldr (fun i ticks => i.duration.ticks + ticks) 0

end Lane

/-- The lanes of one function. -/
structure Schedule where
  name : String
  lanes : List Lane
deriving DecidableEq

/-- Why a schedule does not have the lane that is asked of it. -/
inductive ScheduleError where
  /-- There is no such lane. -/
  | laneNotFound (lane : LaneId) (schedule : Option String)
  /-- The lane is there already. -/
  | duplicateLane (lane : LaneId) (schedule : Option String)
deriving DecidableEq

namespace ScheduleError

/-- The name of a schedule in a message. -/
def named : Option String → String
  | some name => " '" ++ name ++ "'"
  | none => ""

/-- The text of an error. -/
def message : ScheduleError → String
  | laneNotFound lane schedule => "Lane " ++ lane.text ++ " not found in schedule" ++ named schedule
  | duplicateLane lane schedule =>
    "Duplicate lane " ++ lane.text ++ " in schedule" ++ named schedule

end ScheduleError

namespace Schedule

/-- A schedule without lanes. -/
def empty (name : String) : Schedule := ⟨name, []⟩

/-- Add a lane at the end. If there is one with its number, the lane is refused and the schedule is
left as it was. -/
def addLane (s : Schedule) (lane : Lane) : Except ScheduleError Unit × Schedule :=
  if s.lanes.any (·.id = lane.id) then (.error (.duplicateLane lane.id (some s.name)), s)
  else (.ok (), { s with lanes := s.lanes ++ [lane] })

/-- Add lanes one after the other, of which none may be refused. -/
def addLanes (s : Schedule) : List Lane → Except ScheduleError Schedule
  | [] => .ok s
  | lane :: lanes =>
    match s.addLane lane with
    | (.ok (), s) => s.addLanes lanes
    | (.error e, _) => .error e

/-- A schedule with the given lanes, which must be apart. -/
def ofLanes (name : String) (lanes : List Lane) : Except ScheduleError Schedule :=
  (empty name).addLanes lanes

/-- The lane with a number. -/
def lane (s : Schedule) (id : LaneId) : Except ScheduleError Lane :=
  match s.lanes.find? (·.id = id) with
  | some lane => .ok lane
  | none => .error (.laneNotFound id (some s.name))

/-- The number of barriers in each lane. -/
def barrierCounts (s : Schedule) : List Nat := s.lanes.map Lane.barrierCount

/-- Whether no lane has a barrier. -/
def isBarrierFree (s : Schedule) : Bool := s.lanes.all (·.barrierCount == 0)

/-- The number of instructions in all lanes. -/
def instructionCount (s : Schedule) : Nat :=
  s.lanes.foldr (fun lane count => lane.code.length + count) 0

end Schedule

end Lockstep
