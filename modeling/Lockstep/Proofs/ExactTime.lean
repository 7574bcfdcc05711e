import Lockstep.Proofs.Arrangement

/-!
# Exact time

`Ticks` is time without a bound, and a walk that counts with it is exact. Clamped, it is the walk
with durations at every step (`Walk.step_clamp`): a body that is multiplied is the exact one as long
as the time is within the bound, and beyond it the sum is the bound anyway. Both walks subtract only
times that have passed (`Walk.inTime_of_after`). A timing is therefore the exact one, clamped, and
each lane's timing and its delay add up to the timing of the slowest lane (`timings_are_clamped`).
-/

set_option autoImplicit false

namespace Lockstep

/-! ## Walks with exact time -/

/-- A length of time in device ticks, without a bound. -/
structure Ticks where
  /-- The number of ticks. -/
  count : Nat
deriving DecidableEq

instance : Add Ticks := ⟨fun s t => ⟨s.count + t.count⟩⟩

instance : Sub Ticks := ⟨fun s t => ⟨s.count - t.count⟩⟩

/-- A clock that never stands still. -/
instance : Clock Ticks where
  zero := ⟨0⟩
  scale t n := ⟨t.count * n⟩
  ofDuration d := ⟨d.ticks⟩
  ticks := Ticks.count
  le_ticks_add s t := Nat.le_add_right s.count t.count
  add_ofDuration_zero _ := rfl

/-- The nearest duration to an exact time. -/
def Ticks.clamp (t : Ticks) : Duration := .clamp t.count

/-- The timing with the nearest duration. -/
def Timing.clamp : Timing Ticks → Timing
  | fixed t => .fixed t.clamp
  | dynamic => .dynamic

/-- The open loop with the nearest duration. -/
def RepeatFrame.clamp (frame : RepeatFrame Ticks) : RepeatFrame :=
  ⟨frame.remaining, frame.load, frame.head, frame.elapsedAtHead.clamp⟩

/-- The walk with the nearest durations. -/
def Walk.clamp (w : Walk Ticks) : Walk :=
  ⟨w.cursor, w.elapsed.clamp, w.returns, w.frames.map RepeatFrame.clamp⟩

/-- What the step leads to with the nearest durations. -/
def Walk.Step.clamp : Walk.Step Ticks → Walk.Step
  | halt result => .halt (result.map Timing.clamp)
  | next w => .next w.clamp

/-! ## Bounded time is exact time clamped -/

theorem Ticks.clamp_add (t : Ticks) (d : Duration) :
    t.clamp + d = (t + Clock.ofDuration d).clamp := by
  have hclamp := Duration.clamp_add_clamp t.count d.ticks
  rwa [Duration.clamp_ticks] at hclamp

/-- A body is multiplied exactly as far as the bound goes. If the present is within it, so is the
start of the body; if it is not, the body may be too short, but the sum is at the bound. -/
theorem Ticks.clamp_repeated (now start : Ticks) (n : Nat) :
    now.clamp + (now.clamp - start.clamp).scale n =
      (now + Clock.scale (now - start) n).clamp := by
  obtain ⟨now⟩ := now
  obtain ⟨start⟩ := start
  show Duration.clamp now + (Duration.clamp now - Duration.clamp start).scale n =
    .clamp (now + (now - start) * n)
  ext
  simp only [Duration.ticks_add, Duration.ticks_sub, Duration.ticks_scale, Duration.ticks_clamp]
  by_cases hfit : now ≤ Duration.maxTicks
  · have hbody : min now Duration.maxTicks - min start Duration.maxTicks = now - start := by omega
    rw [hbody]
    omega
  · omega

namespace Walk

theorem stepRepeat_clamp (b : Block) (target : Label) (w : Walk Ticks) :
    stepRepeat b target w.clamp = (stepRepeat b target w).clamp := by
  cases hframes : w.frames with
  | nil => simp only [stepRepeat, clamp, hframes, List.map_nil]; rfl
  | cons frame frames =>
    simp only [stepRepeat, clamp, hframes, List.map_cons, RepeatFrame.clamp]
    split_ifs
    · rfl
    · rw [Duration.clock_scale, Ticks.clamp_repeated]
      rfl
    · cases lastLabel? b.lane.code (frame.load + 1) w.cursor target <;> rfl

theorem stepAt_clamp (b : Block) (w : Walk Ticks) (i : Instruction) :
    stepAt b w.clamp i = (stepAt b w i).clamp := by
  cases i with
  | store | label | sync | gotoIf | compare | loadCompare | loadRepeat => rfl
  | pulse name duration =>
    simp only [stepAt, clamp, Duration.clock_ofDuration, Ticks.clamp_add]
    rfl
  | delay duration =>
    simp only [stepAt, clamp, Duration.clock_ofDuration, Ticks.clamp_add]
    rfl
  | barrier id lanes =>
    rw [stepAt, stepAt, apply_ite Step.clamp]
    rfl
  | wait =>
    simp only [stepAt, clamp, List.isEmpty_map]
    split_ifs <;> rfl
  | repeatFrom target => exact stepRepeat_clamp b target w
  | call target =>
    simp only [stepAt, clamp]
    cases firstLabel? b.lane.code (w.cursor + 1) b.last target <;> rfl
  | ret =>
    simp only [stepAt, clamp]
    cases w.returns <;> rfl
  | goto target =>
    simp only [stepAt, stepGoto, clamp]
    cases firstLabel? b.lane.code (w.cursor + 1) b.last target with
    | some position => rfl
    | none => cases firstLabel? b.lane.code b.first (w.cursor + 1) target <;> rfl

/-- A step with durations is the step with exact time, clamped. -/
theorem step_clamp (b : Block) (w : Walk Ticks) : step b w.clamp = (step b w).clamp := by
  have hcursor : w.clamp.cursor = w.cursor := rfl
  simp only [step, hcursor]
  cases b.lane.code[w.cursor]? with
  | some i => exact stepAt_clamp b w i
  | none => split_ifs <;> rfl

/-- So is a walk, as far as it has come. -/
theorem after_clamp (b : Block) (n : Nat) (w : Walk Ticks) :
    after b n w.clamp = (after b n w).clamp := by
  induction n generalizing w with
  | zero => rfl
  | succ n ih =>
    rw [after, after, step_clamp]
    cases step b w with
    | halt result => rfl
    | next v => exact ih v

theorem clamp_start (b : Block) : (b.start Ticks).clamp = b.start := rfl

theorem InTime.clamp {w : Walk Ticks} (h : w.InTime) : w.clamp.InTime := by
  intro frame hframe
  obtain ⟨exact, hexact, rfl⟩ := List.mem_map.1 hframe
  have hle : exact.elapsedAtHead.count ≤ w.elapsed.count := h exact hexact
  show min exact.elapsedAtHead.count _ ≤ min w.elapsed.count _
  omega

/-- A block takes the time that it takes exactly, clamped. -/
theorem timing_of_after {b : Block} {n : Nat} {result : Except TimingError (Timing Ticks)}
    (h : after b n (b.start Ticks) = .halt result) : b.timing = result.map Timing.clamp := by
  apply run_of_after (n := n)
  rw [← clamp_start, after_clamp, h]
  rfl

end Walk

/-! ## Delays -/

namespace Alignment

variable {lanes : List Lane} {lane : Lane} {rank ranks i : Nat} {all : List Decision}
  {delays : List Duration}

/-- What a lane takes and its delay add up to what the slowest lane takes. -/
theorem ticks_add_delay (h : decisions lanes ranks = .ok all)
    (hat : all[rank]? = some (.pad delays)) (hi : lanes[i]? = some lane) :
    ∃ t d, (lane.block rank).timing = .ok (.fixed t) ∧ delays[i]? = some d ∧
      t.ticks ≤ slowest lanes rank ∧ t.ticks + d.ticks = slowest lanes rank := by
  have hrank : rank < ranks := by
    rw [← length_decisions h]
    exact (List.getElem?_eq_some_iff.1 hat).1
  obtain ⟨decision, hdecision, ⟨-, rfl⟩ | ⟨-, hdecide⟩⟩ := decision_at h hrank
  · rw [hat] at hdecision
    cases hdecision
  · obtain rfl : .pad delays = decision := Option.some.inj (hat.symm.trans hdecision)
    obtain ⟨times, t, ht, htiming, hslowest, hpad⟩ :=
      exists_times_of_decideRank hdecide (by rintro ⟨⟩) hi
    cases hpad
    have hle : t.ticks ≤ slowest lanes rank := by
      rw [← Block.ticks_eq htiming]
      exact ticks_le_slowest (List.mem_of_getElem? hi) rank
    have hticks : (Duration.longest times).ticks = slowest lanes rank := by
      rw [← hslowest, Duration.ticks_clamp, Nat.min_eq_left (slowest_le lanes rank)]
    refine ⟨t, Duration.longest times - t, htiming, ?_, hle, ?_⟩
    · rw [List.getElem?_map, ht]
      rfl
    · rw [Duration.ticks_sub, hticks]
      omega

end Alignment

open Lockstep.Alignment

/-- Bounded time is exact time, clamped. Every block, whatever its instructions are and wherever it
starts and ends, is walked to a result with exact time, and its timing is this result with its time
clamped. On the way both walks are at the same places, and neither subtracts a time from an earlier
one. Where lanes are delayed, no lane takes longer than the slowest, and what a lane takes and its
delay add up, within the bound, to what the slowest lane takes. -/
theorem timings_are_clamped :
    (∀ b : Block, (∃ n result, Walk.after b n (b.start Ticks) = .halt result) ∧
      (∀ n result, Walk.after b n (b.start Ticks) = .halt result →
        b.timing = result.map Timing.clamp) ∧
      ∀ n w, Walk.after b n (b.start Ticks) = .next w →
        Walk.after b n b.start = .next w.clamp ∧ w.InTime ∧ w.clamp.InTime) ∧
    ∀ (lanes : List Lane) (ranks : Nat) (all : List Decision),
      commonCount? lanes = some ranks → decisions lanes ranks = .ok all →
      alignLanes lanes = (.ok (report all), apply all lanes) ∧
      ∀ (rank : Nat) (delays : List Duration), all[rank]? = some (.pad delays) →
        ∀ (i : Nat) (lane : Lane), lanes[i]? = some lane →
        ∃ t d, (lane.block rank).timing = .ok (.fixed t) ∧ delays[i]? = some d ∧
          t.ticks ≤ slowest lanes rank ∧ t.ticks + d.ticks = slowest lanes rank ∧
          slowest lanes rank ≤ Duration.maxTicks := by
  refine ⟨?_, ?_⟩
  · intro b
    obtain ⟨steps, -, hhalt, -⟩ := Walk.halts b (b.start Ticks)
    refine ⟨⟨steps, _, hhalt⟩, fun n result => Walk.timing_of_after, ?_⟩
    intro n w hafter
    have htime : w.InTime := Walk.inTime_of_after (Walk.inTime_start b) hafter
    refine ⟨?_, htime, htime.clamp⟩
    rw [← Walk.clamp_start, Walk.after_clamp, hafter]
    rfl
  · intro lanes ranks all hcommon hall
    refine ⟨alignLanes_of_decisions hcommon hall, ?_⟩
    intro rank delays hat i lane hi
    obtain ⟨t, d, htiming, hd, hle, hsum⟩ := ticks_add_delay hall hat hi
    exact ⟨t, d, htiming, hd, hle, hsum, slowest_le lanes rank⟩

/-- A lane that takes the longest duration and one tick more, three times. -/
def endlessLane : Lane :=
  ⟨⟨0⟩, [.loadRepeat 3, .label ⟨"round"⟩, .pulse "X" (.clamp Duration.maxTicks), .delay (.clamp 1),
    .repeatFrom ⟨"round"⟩, .barrier ⟨0⟩ []]⟩

/-- A lane that takes seven ticks. -/
def briefLane : Lane := ⟨⟨1⟩, [.pulse "Y" (.clamp 7), .barrier ⟨0⟩ []]⟩

/-- The exact time of the first lane is beyond the bound, and its timing is the bound; the other
lane is delayed up to it. -/
theorem endlessLane_is_clamped :
    Walk.after (endlessLane.block 0) 6 ((endlessLane.block 0).start Ticks) =
        .halt (.ok (.fixed ⟨3 * UInt64.size⟩)) ∧
      (endlessLane.block 0).timing = .ok (.fixed (.clamp (3 * UInt64.size))) ∧
      decisions [endlessLane, briefLane] 1 =
        .ok [.pad [.zero, .clamp (Duration.maxTicks - 7)]] ∧
      ∃ t d, (briefLane.block 0).timing = .ok (.fixed t) ∧
        [Duration.zero, .clamp (Duration.maxTicks - 7)][1]? = some d ∧
        t.ticks ≤ slowest [endlessLane, briefLane] 0 ∧
        t.ticks + d.ticks = slowest [endlessLane, briefLane] 0 ∧
        slowest [endlessLane, briefLane] 0 ≤ Duration.maxTicks := by
  have hexact : Walk.after (endlessLane.block 0) 6 ((endlessLane.block 0).start Ticks) =
      .halt (.ok (.fixed ⟨3 * UInt64.size⟩)) := rfl
  have hdecisions : decisions [endlessLane, briefLane] 1 =
      .ok [.pad [.zero, .clamp (Duration.maxTicks - 7)]] := by cbv
  obtain ⟨hblocks, hlanes⟩ := timings_are_clamped
  obtain ⟨-, htiming, -⟩ := hblocks (endlessLane.block 0)
  obtain ⟨-, hdelays⟩ := hlanes _ 1 _ rfl hdecisions
  exact ⟨hexact, htiming 6 _ hexact, hdecisions, hdelays 0 _ rfl 1 briefLane rfl⟩

end Lockstep
