import Lockstep.Timing

/-!
# Alignment

Barriers are arranged rank by rank: the barriers of one rank are those before which each lane has
the same number of barriers. If every lane's time up to its barrier is known, each lane is delayed
until the slowest one is there. If some lane's time is not known, all lanes meet at run time.
Barriers at the very start of all lanes are dropped. Lanes with different numbers of barriers are
left alone.
-/

set_option autoImplicit false

namespace Lockstep

/-- What was done about the barriers of some lanes. -/
structure Report where
  /-- The barriers of each lane. -/
  ranks : Nat
  /-- The ranks that were dropped. -/
  elided : Nat
  /-- The ranks that became delays. -/
  padded : Nat
  /-- The ranks that became meetings at run time. -/
  synchronized : Nat
  /-- The barriers of each lane, if they differ and nothing was done. -/
  mismatch : Option (List Nat)
deriving DecidableEq

namespace Report

/-- The report on lanes without barriers. -/
def empty : Report := ⟨0, 0, 0, 0, none⟩

/-- The report on lanes with different numbers of barriers. -/
def mismatched (counts : List Nat) : Report := { empty with mismatch := some counts }

/-- Whether nothing was done because the numbers of barriers differ. -/
def isMismatch (r : Report) : Bool := r.mismatch.isSome

end Report

/-- What becomes of the barriers of one rank. -/
inductive Decision where
  /-- They are dropped. -/
  | elide
  /-- Each lane gets a delay; the delays are in the order of the lanes. -/
  | pad (delays : List Duration)
  /-- The lanes meet at run time. -/
  | synchronize
deriving DecidableEq

namespace Decision

/-- The known times among timings, if all are known. -/
def fixedTimes? : List Timing → Option (List Duration)
  | [] => some []
  | .fixed time :: rest => (fixedTimes? rest).map (time :: ·)
  | .dynamic :: _ => none

/-- The decision for a rank, from how long each lane takes to get there. -/
def ofTimings (timings : List Timing) : Decision :=
  match fixedTimes? timings with
  | some times => .pad (times.map (Duration.longest times - ·))
  | none => .synchronize

/-- A delay, unless it is for no time. -/
def padding (delay : Duration) : List Instruction :=
  if delay.ticks = 0 then [] else [.delay delay]

/-- What stands in the place of a barrier in the lane at a position. -/
def replacement (lane : Nat) : Decision → List Instruction
  | elide => []
  | pad delays => padding (delays.getD lane .zero)
  | synchronize => [.sync, .wait]

end Decision

/-- Whether nothing stands in a block. -/
def Block.isEmpty (b : Block) : Bool := b.last == b.first

/-- Put the given instructions in the places of the barriers, first to first. -/
def replaceBarriers : List (List Instruction) → List Instruction → List Instruction
  | _, [] => []
  | replacements, i :: code =>
    if i.isBarrier then replacements.headD [] ++ replaceBarriers replacements.tail code
    else i :: replaceBarriers replacements code

namespace Alignment

/-- The number of barriers that all lanes have. -/
def commonCount? (lanes : List Lane) : Option Nat :=
  match lanes.map Lane.barrierCount with
  | [] => some 0
  | count :: counts => if counts.all (· == count) then some count else none

/-- The number of leading ranks before which no lane has an instruction. -/
def leading (lanes : List Lane) (ranks : Nat) : Nat :=
  ((List.range ranks).takeWhile fun rank => lanes.all fun lane => (lane.block rank).isEmpty).length

/-- The decision for a rank. All lanes are walked, also when one is known to be dynamic. -/
def decideRank (lanes : List Lane) (rank : Nat) : Except TimingError Decision := do
  let timings ← lanes.mapM fun lane => (lane.block rank).timing
  return .ofTimings timings

/-- The decisions for all ranks. -/
def decisions (lanes : List Lane) (ranks : Nat) : Except TimingError (List Decision) := do
  let elided := leading lanes ranks
  let rest ← (List.range' elided (ranks - elided)).mapM (decideRank lanes)
  return List.replicate elided .elide ++ rest

/-- The report on decisions. -/
def report (decisions : List Decision) : Report where
  ranks := decisions.length
  elided := decisions.countP fun | .elide => true | _ => false
  padded := decisions.countP fun | .pad _ => true | _ => false
  synchronized := decisions.countP fun | .synchronize => true | _ => false
  mismatch := none

/-- Put decisions into effect. -/
def apply (decisions : List Decision) (lanes : List Lane) : List Lane :=
  lanes.mapIdx fun index lane =>
    { lane with code := replaceBarriers (decisions.map (·.replacement index)) lane.code }

end Alignment

open Lockstep.Alignment

/-- Arrange the barriers of lanes: the report, and the lanes after that. If a walk fails, no lane is
changed. -/
def alignLanes (lanes : List Lane) : Except TimingError Report × List Lane :=
  match commonCount? lanes with
  | none => (.ok (.mismatched (lanes.map Lane.barrierCount)), lanes)
  | some ranks =>
    match decisions lanes ranks with
    | .ok decisions => (.ok (report decisions), apply decisions lanes)
    | .error e => (.error e, lanes)

/-- Let lanes meet at run time at every barrier: the report, and the lanes after that. -/
def synchronizeLanes (lanes : List Lane) : Report × List Lane :=
  match commonCount? lanes with
  | none => (.mismatched (lanes.map Lane.barrierCount), lanes)
  | some ranks =>
    let decisions := List.replicate ranks Decision.synchronize
    (report decisions, apply decisions lanes)

end Lockstep
