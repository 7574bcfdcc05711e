import Lockstep.Proofs.Points

/-!
# Spliced lanes

Placing points neither loses nor duplicates nor reorders instructions: what is left of a placed lane
without its points is what the lane runs of its segments, with blocks run in place, its own groups
spliced in and the groups of other lanes left out. Blocks may be nested, repeated and in any order.

A block that is not among the meetings would be dropped with all that is in it. That this does not
happen rests on the meetings being gathered from every place in which a lane can have a block
(`Roster.ofLanes_has`).
-/

set_option autoImplicit false

namespace Lockstep

/-! ## Choices of instructions that take no point -/

namespace Placement

variable {keep : Instruction → Bool} (p : Placement)

/-- A choice of instructions without points leaves out the start of a meeting. -/
theorem filter_startPoint (hkeep : ∀ i, keep i = true → i.point? = none) (k : Nat)
    (code : List Instruction) : (p.startPoint k :: code).filter keep = code.filter keep := by
  apply List.filter_cons_of_neg
  intro h
  have hpoint := p.isSome_startPoint k
  rw [hkeep _ h] at hpoint
  cases hpoint

/-- So it does with the end of one. -/
theorem filter_endPoint (hkeep : ∀ i, keep i = true → i.point? = none) (k : Nat)
    (code : List Instruction) : (p.endPoint k :: code).filter keep = code.filter keep := by
  apply List.filter_cons_of_neg
  intro h
  cases hkeep _ h

/-- Of the points for meetings that a lane has no part in, nothing is chosen. -/
theorem filter_idle (hkeep : ∀ i, keep i = true → i.point? = none) (next stop : Nat) :
    (p.idle next stop).filter keep = [] := by
  unfold idle
  induction List.range' next (stop - next) with
  | nil => rfl
  | cons k ks ih =>
    rw [List.flatMap_cons, List.filter_append, ih, filter_startPoint p hkeep,
      filter_endPoint p hkeep]
    rfl

mutual

/-- Of what is emitted for a segment, that is chosen which is chosen of its code. -/
theorem filter_emit (hkeep : ∀ i, keep i = true → i.point? = none) : ∀ (s : Segment) (next : Nat),
    (∀ d ∈ s.blockParts (· = p.lane), p.roster.Has d.block) →
      (p.emit next s).1.filter keep = (s.inline p.lane).filter keep
  | .op i, next, _ => by rw [emit, Segment.inline]
  | .group owner body, next, h => by
    rw [Segment.blockParts] at h
    rw [emit, Segment.inline]
    by_cases howner : owner = p.lane
    · rw [if_pos (decide_eq_true howner)] at h
      rw [if_pos howner, if_pos howner]
      exact filter_emitAll hkeep body next h
    · rw [if_neg howner, if_neg howner]
  | .concurrent block lanes body, next, h => by
    rw [Segment.blockParts, List.forall_mem_cons] at h
    -- A block that is not among the meetings would be left out, so it matters that this one is.
    obtain ⟨k, hk⟩ := h.1.position?
    have hbody := filter_emitAll hkeep body (max next (k + 1)) h.2
    rw [emit, hk, inline_concurrent]
    simp only [List.filter_append, filter_idle p hkeep, filter_startPoint p hkeep,
      filter_endPoint p hkeep, hbody, List.nil_append, List.filter_nil, List.append_nil]

/-- Whatever takes no point takes the same of the placed code as of the code of the segments. -/
theorem filter_emitAll (hkeep : ∀ i, keep i = true → i.point? = none) :
    ∀ (segments : List Segment) (next : Nat),
    (∀ d ∈ blockPartsAll (· = p.lane) segments, p.roster.Has d.block) →
      (p.emitAll next segments).1.filter keep = (inlineAll p.lane segments).filter keep
  | [], next, _ => by rw [emitAll, inlineAll_nil]
  | s :: rest, next, h => by
    rw [blockPartsAll, List.forall_mem_append] at h
    rw [emitAll, inlineAll_cons, List.filter_append, List.filter_append,
      filter_emit hkeep s next h.1, filter_emitAll hkeep rest _ h.2]

end

/-- A lane with its points has, of all instructions that are no points, those of its segments. -/
theorem filter_code (hkeep : ∀ i, keep i = true → i.point? = none) {segments : List Segment}
    (h : ∀ d ∈ blockPartsAll (· = p.lane) segments, p.roster.Has d.block) :
    (p.code segments).filter keep = (inlineAll p.lane segments).filter keep := by
  rw [code, List.filter_append, filter_idle p hkeep, List.append_nil,
    filter_emitAll p hkeep segments 0 h]

end Placement

/-! ## Lanes without their points -/

/-- What is left of code without its points. -/
def withoutPoints (code : List Instruction) : List Instruction :=
  code.filter fun i => i.point?.isNone

/-- Code that has no points is left as it is. -/
theorem withoutPoints_of_points_nil {code : List Instruction} (h : points code = []) :
    withoutPoints code = code := by
  apply List.filter_eq_self.2
  intro i hi
  rw [points_eq_nil_iff.1 h i hi]
  rfl

/-- Placing points neither loses nor duplicates nor reorders instructions. The lanes come out in
their order and with their numbers, and without its points each is what it runs of its segments:
blocks in place, its own groups spliced in, the groups of other lanes left out. -/
theorem placeBarriers_keeps_instructions (initialWait : Bool)
    (lanes : List (LaneId × List Segment))
    (hops : ∀ lane ∈ lanes, ∀ i ∈ inlineAll lane.1 lane.2, i.point? = none) :
    (placeBarriers initialWait lanes).map (fun placed => (placed.id, withoutPoints placed.code)) =
      lanes.map fun lane => (lane.1, inlineAll lane.1 lane.2) := by
  unfold placeBarriers
  rw [List.map_map]
  apply List.map_congr_left
  intro lane hlane
  have hnone := points_eq_nil_iff.2 (hops lane hlane)
  have hcode : withoutPoints (Placement.code ⟨lane.1, Roster.ofLanes lanes, initialWait⟩ lane.2) =
      withoutPoints (inlineAll lane.1 lane.2) :=
    Placement.filter_code _ (fun _ => Option.isNone_iff_eq_none.1)
      (Roster.ofLanes_has hlane fun owner => owner = lane.1)
  exact congrArg (Prod.mk lane.1) (hcode.trans (withoutPoints_of_points_nil hnone))

/-- Two lanes with blocks that are nested, repeated and late, and with groups in blocks and blocks
in groups. -/
def tangledLanes : List (LaneId × List Segment) :=
  [(⟨0⟩, [.op (.pulse "A" (.clamp 5)),
      .concurrent ⟨3⟩ [⟨0⟩] [.op (.delay (.clamp 2)),
        .concurrent ⟨1⟩ [⟨0⟩] [.op .sync, .group ⟨1⟩ [.op .ret]], .op (.goto ⟨"out"⟩)],
      .concurrent ⟨3⟩ [⟨1⟩] [.op .loadCompare], .concurrent ⟨0⟩ [] []]),
    (⟨1⟩, [.group ⟨1⟩ [.op (.pulse "B" (.clamp 7)), .concurrent ⟨1⟩ [⟨1⟩] [.op .ret]],
      .group ⟨0⟩ [.concurrent ⟨7⟩ [] [.op (.pulse "C" (.clamp 1))]]])]

/-- Without their points, the placed lanes are the code of their segments, in their order. -/
theorem placeBarriers_tangledLanes :
    (∀ lane ∈ tangledLanes, ∀ i ∈ inlineAll lane.1 lane.2, i.point? = none) ∧
      (placeBarriers true tangledLanes).map
          (fun placed => (placed.id, withoutPoints placed.code)) =
        [(⟨0⟩, [.pulse "A" (.clamp 5), .delay (.clamp 2), .sync, .goto ⟨"out"⟩, .loadCompare]),
          (⟨1⟩, [.pulse "B" (.clamp 7), .ret])] := by
  have hops : ∀ lane ∈ tangledLanes, ∀ i ∈ inlineAll lane.1 lane.2, i.point? = none := by decide
  exact ⟨hops, placeBarriers_keeps_instructions true tangledLanes hops⟩

end Lockstep
