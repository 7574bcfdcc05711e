import Lockstep.Proofs.Passage
import Lockstep.Proofs.Verification

/-!
# Functions that are accepted

A function whose lanes are well-formed is compiled exactly if the statements of each lane can be
lowered and no lane is declared twice. Nothing after the lowering refuses it: its lanes have the
same points, so their barriers are as many as each other's (`Placement.countP_code`); between the
points they can be walked, so every barrier is arranged; and the verification finds nothing.

Whether statements can be lowered does not depend on the labels that are taken already
(`Lowerer.exists_lower_of_lower`), so it can be asked of each lane by itself.
-/

set_option autoImplicit false

namespace Lockstep

/-! ## Lanes that can be lowered -/

/-- The lanes of a function can be lowered exactly if each of them can. -/
theorem Compiler.lowerLanes_eq_ok_iff {bodies : List LaneBody} {supply : LabelSupply} :
    (∃ lanes supply', lowerLanes supply bodies = (.ok lanes, supply')) ↔
      ∀ body ∈ bodies, ∃ segments after,
        (Lowerer.new supply).lower body.body = (.ok segments, after) := by
  induction bodies generalizing supply with
  | nil => simp [lowerLanes]
  | cons body bodies ih =>
    rw [List.forall_mem_cons]
    constructor
    · rintro ⟨lanes, supply', h⟩
      unfold lowerLanes at h
      split at h
      · cases h
      · rename_i segments s hlower
        refine ⟨⟨segments, s, hlower⟩, ?_⟩
        split at h
        · cases h
        · rename_i rest supply₁ hrest
          intro body' hbody'
          exact Lowerer.exists_lower_of_lower (ih.1 ⟨rest, supply₁, hrest⟩ body' hbody') supply
    · rintro ⟨⟨segments, s, hlower⟩, hrest⟩
      obtain ⟨rest, supply', hrun⟩ := ih.2 fun body' hbody' =>
        Lowerer.exists_lower_of_lower (hrest body' hbody') s.supply
      exact ⟨(body.lane, segments) :: rest, supply', by simp only [lowerLanes, hlower, hrun]⟩

/-! ## Schedules of lanes that are apart -/

namespace Schedule

theorem exists_addLanes_iff {lanes : List Lane} {start : Schedule} :
    (∃ s, start.addLanes lanes = .ok s) ↔
      (lanes.map Lane.id).Nodup ∧ ∀ lane ∈ lanes, lane.id ∉ start.lanes.map Lane.id := by
  induction lanes generalizing start with
  | nil => exact ⟨fun _ => ⟨List.nodup_nil, by simp⟩, fun _ => ⟨start, rfl⟩⟩
  | cons lane lanes ih =>
    rw [addLanes, List.map_cons, List.nodup_cons, List.forall_mem_cons]
    by_cases hold : lane.id ∈ start.lanes.map Lane.id
    · rw [addLane_of_mem hold]
      constructor
      · rintro ⟨s, h⟩
        cases h
      · rintro ⟨-, hnew, -⟩
        exact absurd hold hnew
    · rw [addLane_of_not_mem hold]
      refine ih.trans ?_
      simp only [List.map_append, List.map_cons, List.map_nil, List.mem_append,
        List.mem_singleton, not_or, hold, not_false_eq_true, true_and]
      constructor
      · rintro ⟨hnodup, hapart⟩
        refine ⟨⟨?_, hnodup⟩, fun l hl => (hapart l hl).1⟩
        intro hmem
        obtain ⟨l, hl, heq⟩ := List.mem_map.1 hmem
        exact (hapart l hl).2 heq
      · rintro ⟨⟨hnew, hnodup⟩, hapart⟩
        refine ⟨hnodup, fun l hl => ⟨hapart l hl, ?_⟩⟩
        intro heq
        exact hnew (List.mem_map.2 ⟨l, hl, heq⟩)

/-- Lanes make a schedule exactly if no two have the same number. -/
theorem exists_ofLanes_iff (name : String) {lanes : List Lane} :
    (∃ s, ofLanes name lanes = .ok s) ↔ (lanes.map Lane.id).Nodup := by
  rw [ofLanes, exists_addLanes_iff]
  simp [empty]

end Schedule

/-! ## Barriers of a placed lane -/

/-- The barriers among the points of some meetings: two for each, but for the trigger. -/
def barriersFor (initialWait : Bool) (meetings : Nat) : Nat :=
  if initialWait ∧ 1 ≤ meetings then 2 * meetings - 1 else 2 * meetings

theorem countP_points (code : List Instruction) :
    (points code).countP Instruction.isBarrier = code.countP Instruction.isBarrier := by
  rw [points, List.countP_filter]
  congr 1
  funext i
  cases i <;> rfl

namespace Placement

variable {p : Placement} {segments : List Segment}

theorem countP_idle (p : Placement) (k : Nat) :
    (p.idle 0 k).countP Instruction.isBarrier = barriersFor p.initialWait k := by
  induction k with
  | zero => simp [idle_self, barriersFor]
  | succ k ih =>
    have hend : (p.endPoint k).isBarrier = true := rfl
    have hstart : (p.startPoint k).isBarrier = !decide (p.initialWait ∧ k = 0) := by
      unfold startPoint
      split <;> rename_i hfirst <;> simp only [hfirst] <;> rfl
    rw [← idle_append (Nat.zero_le k) (Nat.le_succ k), idle_succ, List.countP_append, ih,
      List.countP_cons, List.countP_cons, List.countP_nil, hend, hstart]
    unfold barriersFor
    cases p.initialWait with
    | false => simp; omega
    | true =>
      cases k with
      | zero => rfl
      | succ k => simp; omega

/-- The barriers of a lane are those of all meetings. -/
theorem countP_code (hroster : p.roster.Ascending)
    (hhas : ∀ d ∈ blockPartsAll (· = p.lane) segments, p.roster.Has d.block)
    (horderly : Orderly p.lane segments) (hops : points (inlineAll p.lane segments) = []) :
    (p.code segments).countP Instruction.isBarrier =
      barriersFor p.initialWait p.roster.length := by
  rw [← countP_points, (laid_code hroster hhas horderly hops).points_eq, countP_idle]

end Placement

/-! ## Well-formed lanes -/

/-- A lane whose blocks stand outside of loops, choices and other blocks and are in ascending order,
and in which no `break` leaves a counted loop inside another one. -/
structure LaneBody.WellFormed (body : LaneBody) : Prop where
  apart : blocksApartAll body.body = true
  ascending : (blockIdsAll (· = body.lane) body.body).Pairwise (·.index < ·.index)
  breaks : breaksApartAll body.lane false false body.body = true

/-- The number of different blocks in a function. -/
def Function.blockCount (f : Function) : Nat :=
  (f.lanes.flatMap fun body => blockIdsAll (fun _ => true) body.body).dedup.length

theorem Lowered.points_eq_nil {loops : List LoopLabels} {n m : Nat} {body : List Statement}
    {segments : List Segment} (h : Lowered loops n body segments m) (lane : LaneId) :
    points (inlineAll lane segments) = [] := by
  refine points_eq_nil_iff.2 fun i hi => ?_
  exact Instruction.point?_of_isVisible (List.filter_eq_self.1 (h.visible_eq lane) i hi)

namespace LaneBody.WellFormed

variable {body : LaneBody} {n m : Nat} {segments : List Segment}

theorem walkable (h : body.WellFormed) (hlowered : Lowered [] n body.body segments m) :
    Walkable body.lane segments :=
  hlowered.walkable h.apart h.breaks

theorem orderly (h : body.WellFormed) (hlowered : Lowered [] n body.body segments m) :
    Orderly body.lane segments where
  flat := (h.walkable hlowered).flat
  ascending := by
    have hascending := h.ascending
    rw [← hlowered.block_blockPartsAll, List.pairwise_map] at hascending
    exact hascending

end LaneBody.WellFormed

namespace Compiler

section Lowered

variable {bodies : List LaneBody} {supply supply' : LabelSupply}
  {lanes : List (LaneId × List Segment)}

theorem map_lane_of_lowerLanes (h : lowerLanes supply bodies = (.ok lanes, supply')) :
    lanes.map Prod.fst = bodies.map LaneBody.lane := by
  have hbodies := lowered_of_lowerLanes h
  clear h
  induction hbodies with
  | nil => rfl
  | cons hfirst _ ih => rw [List.map_cons, List.map_cons, hfirst.1, ih]

/-- The blocks of lowered lanes are those of the statements. -/
theorem block_declarations (h : lowerLanes supply bodies = (.ok lanes, supply')) :
    (declarations lanes).map BlockPart.block =
      bodies.flatMap fun body => blockIdsAll (fun _ => true) body.body := by
  unfold declarations
  have hbodies := lowered_of_lowerLanes h
  clear h
  induction hbodies with
  | nil => rfl
  | cons hfirst _ ih =>
    obtain ⟨-, n, m, hlowered⟩ := hfirst
    rw [List.flatMap_cons, List.map_append, List.flatMap_cons, ih, hlowered.block_blockPartsAll]

/-- A placed lane of a function with well-formed lanes can be walked from point to point, and has
the barriers of all meetings. -/
theorem passesBetween_placeBarriers (h : lowerLanes supply bodies = (.ok lanes, supply'))
    (hwf : ∀ body ∈ bodies, body.WellFormed) (initialWait : Bool) :
    ∀ placed ∈ placeBarriers initialWait lanes, PassesBetween placed.code ∧
      placed.barrierCount = barriersFor initialWait (Roster.ofLanes lanes).length := by
  intro placed hplaced
  obtain ⟨⟨lane, segments⟩, hlane, rfl⟩ := List.mem_map.1 hplaced
  obtain ⟨body, hbody, heq, n, m, hlowered⟩ := exists_lowered_of_mem h hlane
  obtain rfl : lane = body.lane := heq
  have hhas := Roster.ofLanes_has hlane fun owner => owner = body.lane
  constructor
  · exact Placement.passesBetween_code ((hwf body hbody).walkable hlowered)
  · exact Placement.countP_code (p := ⟨body.lane, Roster.ofLanes lanes, initialWait⟩)
      (Roster.gathers_ofLanes lanes).ascending hhas ((hwf body hbody).orderly hlowered)
      (hlowered.points_eq_nil body.lane)

/-- The barriers of a function with well-formed lanes are all arranged. -/
theorem exists_arrange (h : lowerLanes supply bodies = (.ok lanes, supply'))
    (hwf : ∀ body ∈ bodies, body.WellFormed) (options : Options) :
    ∃ out report, arrange options (placeBarriers options.initialWait lanes) = (.ok report, out) ∧
      (∀ lane ∈ out, lane.barrierCount = 0) ∧ report.mismatch = none ∧
      report.ranks = barriersFor options.initialWait (Roster.ofLanes lanes).length := by
  have hplaced := passesBetween_placeBarriers h hwf options.initialWait
  have hsound := labelsSound_placeBarriers h options.initialWait
  have hnone : placeBarriers options.initialWait lanes = [] →
      barriersFor options.initialWait (Roster.ofLanes lanes).length = 0 := by
    intro hempty
    obtain rfl : lanes = [] := List.map_eq_nil_iff.1 hempty
    cases options.initialWait <;> rfl
  have hcommon := Alignment.commonCount?_eq_some hnone fun lane hlane => (hplaced lane hlane).2
  -- All blocks before a barrier can be walked, so there is a decision for each rank.
  obtain ⟨all, hall⟩ := Alignment.exists_decisions_eq_ok (fun rank hrank lane hlane =>
    (hplaced lane hlane).1.timing (labelsApart_of_nodup (hsound lane hlane).nodup)
      ((hplaced lane hlane).2.symm ▸ hrank))
  have hok : ∃ out report,
      arrange options (placeBarriers options.initialWait lanes) = (.ok report, out) := by
    unfold arrange
    split
    · exact ⟨_, _, rfl⟩
    · exact ⟨_, _, Alignment.alignLanes_of_decisions hcommon hall⟩
  obtain ⟨out, report, harrange⟩ := hok
  rcases arrange_cases harrange with ⟨hmismatch, -⟩ | ⟨decided, hcount, hout, rfl⟩
  · rw [hcommon] at hmismatch
    cases hmismatch
  · refine ⟨out, _, harrange, barrierCount_of_arrange harrange rfl, rfl, ?_⟩
    exact Option.some.inj (hcount.symm.trans hcommon)

/-- A function with well-formed lanes is compiled once its lanes make a schedule. -/
theorem assemble_of_wellFormed (h : lowerLanes supply bodies = (.ok lanes, supply'))
    (hwf : ∀ body ∈ bodies, body.WellFormed) (options : Options) {name : String}
    {schedule : Schedule}
    (hschedule : Schedule.ofLanes name (placeBarriers options.initialWait lanes) = .ok schedule) :
    ∃ compiled report, assemble options name lanes = .ok compiled ∧
      compiled.schedule.isBarrierFree = true ∧ compiled.report = some report ∧
      report.mismatch = none ∧
      report.ranks = barriersFor options.initialWait (Roster.ofLanes lanes).length := by
  obtain ⟨out, report, harrange, hfree, hmismatch, hranks⟩ := exists_arrange h hwf options
  have hlanes := Schedule.lanes_of_ofLanes hschedule
  have hsound := labelsSound_placeBarriers h options.initialWait
  rw [← hlanes] at harrange hsound
  have hresolve := resolve_eq options hsound
  rw [harrange] at hresolve
  refine ⟨⟨{ schedule with lanes := out }, some report⟩, report, ?_, ?_, rfl, hmismatch, hranks⟩
  · simp only [assemble, hschedule, hresolve]
  · simpa [Schedule.isBarrierFree] using hfree

end Lowered

/-- A function with well-formed lanes is compiled exactly if each of its lanes can be lowered and no
two have the same number. Then no barrier is left, and as many ranks were arranged as the different
blocks of the function have barriers. -/
theorem compileFunction_accepts_iff (c : Compiler) (f : Function)
    (hwf : ∀ body ∈ f.lanes, body.WellFormed) :
    ((∃ compiled, (c.compileFunction f).1 = .ok compiled) ↔
      (∀ body ∈ f.lanes, ∃ segments after,
        (Lowerer.new c.supply).lower body.body = (.ok segments, after)) ∧
      (f.lanes.map LaneBody.lane).Nodup) ∧
    ∀ compiled, (c.compileFunction f).1 = .ok compiled →
      compiled.schedule.isBarrierFree = true ∧ ∃ report, compiled.report = some report ∧
        report.mismatch = none ∧
        report.ranks = barriersFor c.options.initialWait f.blockCount := by
  rw [← lowerLanes_eq_ok_iff]
  unfold compileFunction
  cases hlower : lowerLanes c.supply f.lanes with
  | mk result supply =>
  cases result with
  | error e => simp
  | ok lanes =>
    have hids : (placeBarriers c.options.initialWait lanes).map Lane.id =
        f.lanes.map LaneBody.lane := by
      rw [← map_lane_of_lowerLanes hlower, placeBarriers, List.map_map]
      rfl
    have hcount : (Roster.ofLanes lanes).length = f.blockCount := by
      rw [(Roster.gathers_ofLanes lanes).length_eq, block_declarations hlower]
      rfl
    rw [← hids, ← Schedule.exists_ofLanes_iff f.name, ← hcount]
    cases hschedule : Schedule.ofLanes f.name (placeBarriers c.options.initialWait lanes) with
    | error e =>
      have hrefused : assemble c.options f.name lanes = .error (.schedule e) := by
        rw [assemble, hschedule]
      simp [hrefused]
    | ok schedule =>
      obtain ⟨compiled, report, hassemble, hfacts⟩ :=
        assemble_of_wellFormed hlower hwf c.options hschedule
      simp only [hassemble]
      refine ⟨⟨fun _ => ⟨⟨lanes, supply, rfl⟩, schedule, rfl⟩, fun _ => ⟨compiled, rfl⟩⟩, ?_⟩
      rintro _ ⟨⟩
      exact ⟨hfacts.1, report, hfacts.2⟩

/-- Three lanes with three blocks: one that two lanes are in, one in a group that is dropped and one
in a group that is kept. -/
def scattered : Function :=
  .ofLanes "f" [measuredLane,
    ⟨⟨1⟩, [.grouped .unknown
      [.group .unknown ⟨0⟩ [.concurrent .unknown ⟨9⟩ [⟨0⟩] [.pulse "U" (.clamp 3)]],
        .group .unknown ⟨1⟩ [.concurrent .unknown ⟨0⟩ [⟨0⟩, ⟨1⟩] [],
          .repeatTimes .unknown 2 [.pulse "V" (.clamp 4), .breakLoop .unknown],
          .concurrent .unknown ⟨2⟩ [⟨1⟩] [.pulse "W" (.clamp 1)]]]]⟩,
    ⟨⟨2⟩, []⟩]

theorem scattered_is_accepted :
    (∀ body ∈ scattered.lanes, body.WellFormed) ∧
      ∃ compiled report, ((new {}).compileFunction scattered).1 = .ok compiled ∧
        compiled.schedule.isBarrierFree = true ∧ compiled.report = some report ∧
        report.mismatch = none ∧ report.ranks = 5 := by
  have hwf : ∀ body ∈ scattered.lanes, body.WellFormed := by
    intro body hbody
    simp only [scattered, Function.ofLanes, List.mem_cons, List.not_mem_nil, or_false] at hbody
    rcases hbody with rfl | rfl | rfl <;> exact ⟨by decide, by decide, by decide⟩
  have hlower : ∀ body ∈ scattered.lanes, ∃ segments after,
      (Lowerer.new (new {}).supply).lower body.body = (.ok segments, after) := by
    intro body hbody
    simp only [scattered, Function.ofLanes, List.mem_cons, List.not_mem_nil, or_false] at hbody
    rcases hbody with rfl | rfl | rfl <;> exact ⟨_, _, rfl⟩
  obtain ⟨haccepts, hfacts⟩ := compileFunction_accepts_iff (new {}) scattered hwf
  obtain ⟨compiled, hcompiled⟩ := haccepts.2 ⟨hlower, by decide⟩
  obtain ⟨hfree, report, hreport, hmismatch, hranks⟩ := hfacts compiled hcompiled
  exact ⟨hwf, compiled, report, hcompiled, hfree, hreport, hmismatch, hranks.trans (by decide)⟩

end Compiler

end Lockstep
