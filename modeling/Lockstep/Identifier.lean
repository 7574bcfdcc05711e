/-!
# Identifiers

Lanes, barriers and concurrent blocks are numbered with 32-bit words. The three numberings are kept
apart by type; each has its own written form.
-/

set_option autoImplicit false

namespace Lockstep

/-- The number of an execution lane. -/
structure LaneId where
  /-- The word that numbers the lane. -/
  index : UInt32
deriving DecidableEq

/-- The number of a barrier, shared by all lanes that meet at it. -/
structure BarrierId where
  /-- The word that numbers the barrier. -/
  index : UInt32
deriving DecidableEq

/-- The number of a concurrent block, given in program order. -/
structure BlockId where
  /-- The word that numbers the block. -/
  index : UInt32
deriving DecidableEq

/-- Lanes are written `ch0`, `ch1`, and so on. -/
def LaneId.text (lane : LaneId) : String := "ch" ++ toString lane.index.toNat

/-- Barriers are written `b0`, `b1`, and so on. -/
def BarrierId.text (barrier : BarrierId) : String := "b" ++ toString barrier.index.toNat

/-- Blocks are written `block0`, `block1`, and so on. -/
def BlockId.text (block : BlockId) : String := "block" ++ toString block.index.toNat

end Lockstep
