import Lockstep.Instruction

/-!
# Segments

What a lane's statements are lowered to: plain instructions, and among them the parts of concurrent
blocks and of lane groups, which stay apart until the meeting points of the lanes are placed.
-/

set_option autoImplicit false

namespace Lockstep

/-- An element of a lowered lane. -/
inductive Segment where
  /-- A plain instruction. -/
  | op (i : Instruction)
  /-- A lane's part of a concurrent block, which the given lanes take part in. -/
  | concurrent (block : BlockId) (lanes : List LaneId) (body : List Segment)
  /-- Instructions for one lane only. -/
  | group (lane : LaneId) (body : List Segment)

namespace Segment

/-- The instruction of a plain element. -/
def op? : Segment → Option Instruction
  | op i => some i
  | _ => none

/-- Plain elements. -/
def ops (code : List Instruction) : List Segment := code.map op

end Segment

end Lockstep
