import Lockstep.Proofs.Layout
import Mathlib.Tactic.Common

/-!
# Walks step by step

What a walk does at each kind of instruction, as an equation between the walk there and the walk
after it: `Walk.run` is the same from both. A walk that stops gives its result. Durations add up to
their bound, so that a sum may be clamped at any point of it. A lane without barriers is a single
block (`Lane.block_zero`).
-/

set_option autoImplicit false

namespace Lockstep

/-! ## Sums of durations -/

namespace Duration

theorem clamp_ticks (d : Duration) : clamp d.ticks = d :=
  Duration.ext (Nat.min_eq_left d.ticks_le)

theorem add_assoc (a b c : Duration) : a + b + c = a + (b + c) := by
  ext
  simp only [ticks_add]
  omega

/-- Durations that are cut off add up to the sum that is cut off. -/
theorem clamp_add_clamp (m n : Nat) : clamp m + clamp n = clamp (m + n) := by
  ext
  simp only [ticks_add, ticks_clamp]
  omega

theorem add_clamp_add_clamp (d : Duration) (m n : Nat) :
    d + clamp m + clamp n = d + clamp (m + n) := by
  rw [add_assoc, clamp_add_clamp]

theorem add_clamp_zero (d : Duration) : d + clamp 0 = d := add_zero d

theorem zero_add (d : Duration) : zero + d = d := by
  ext
  have := d.ticks_le
  simp only [ticks_add, ticks_zero]
  omega

/-- A body that was gone through once and is multiplied for the other rounds. -/
theorem add_clamp_repeated (d : Duration) (t n : Nat) :
    d + clamp t + (d + clamp t - d).scale n = d + clamp ((n + 1) * t) := by
  ext
  have hd := d.ticks_le
  have hround : (n + 1) * t = n * t + t := Nat.succ_mul n t
  simp only [ticks_add, ticks_sub, ticks_scale, ticks_clamp, hround]
  by_cases hfit : d.ticks + t ≤ maxTicks
  · have hbody : min (d.ticks + min t maxTicks) maxTicks - d.ticks = t := by omega
    rw [hbody, Nat.mul_comm t n]
    omega
  · omega

end Duration

/-! ## Steps of a walk -/

namespace Walk

section Run

variable {τ : Type} [Clock τ] {b : Block} {w w' : Walk τ} {i : Instruction}

/-- A walk that goes on comes to the result of what follows. -/
theorem run_of_next (h : step b w = .next w') : run b w = run b w' := by
  conv_lhs => unfold run
  split
  · rename_i hstep
    rw [h] at hstep
    cases hstep
  · rename_i hstep
    rw [h] at hstep
    cases hstep
    rfl

/-- A walk that halts has that result. -/
theorem run_of_halt {result : Except TimingError (Timing τ)} (h : step b w = .halt result) :
    run b w = result := by
  unfold run
  split
  · rename_i hstep
    rw [h] at hstep
    cases hstep
    rfl
  · rename_i hstep
    rw [h] at hstep
    cases hstep

/-- A step is decided by the instruction at the cursor. -/
theorem step_of_getElem? (h : b.lane.code[w.cursor]? = some i) : step b w = stepAt b w i := by
  unfold step
  rw [h]

/-- A walk that has come to the end of its block. -/
theorem run_end (h : b.lane.code[w.cursor]? = none) (hlast : w.cursor = b.last) :
    run b w = .ok (.fixed w.elapsed) := by
  refine run_of_halt ?_
  unfold step
  rw [h]
  exact if_pos hlast

end Run

section Instructions

variable {b : Block} {p q : Nat} {e : Duration} {returns : List Nat} {frames : List RepeatFrame}
  {l : Label}

/-- A timed instruction is walked over in its time. -/
theorem run_timed {i : Instruction} {d : Duration} (h : b.lane.code[p]? = some i)
    (hi : ∀ w : Walk, stepAt b w i = .next { w.advance with elapsed := w.elapsed + d }) :
    run b ⟨p, e, returns, frames⟩ = run b ⟨p + 1, e + d, returns, frames⟩ :=
  run_of_next ((step_of_getElem? h).trans (hi _))

/-- An instruction that takes no time is walked over. -/
theorem run_passed {i : Instruction} (h : b.lane.code[p]? = some i)
    (hi : ∀ w : Walk, stepAt b w i = .next w.advance) :
    run b ⟨p, e, returns, frames⟩ = run b ⟨p + 1, e, returns, frames⟩ :=
  run_of_next ((step_of_getElem? h).trans (hi _))

theorem run_label (h : LabelAt b.lane.code l p) :
    run b ⟨p, e, returns, frames⟩ = run b ⟨p + 1, e, returns, frames⟩ :=
  run_passed h fun _ => rfl

/-- A jump ahead. -/
theorem run_goto (h : b.lane.code[p]? = some (.goto l))
    (hl : firstLabel? b.lane.code (p + 1) b.last l = some q) :
    run b ⟨p, e, returns, frames⟩ = run b ⟨q, e, returns, frames⟩ := by
  refine run_of_next ((step_of_getElem? h).trans ?_)
  simp only [stepAt, stepGoto, hl]

/-- A jump back. -/
theorem run_goto_back (h : b.lane.code[p]? = some (.goto l))
    (hl : firstLabel? b.lane.code (p + 1) b.last l = none)
    (hback : firstLabel? b.lane.code b.first (p + 1) l = some q) :
    run b ⟨p, e, returns, frames⟩ = .ok .dynamic := by
  refine run_of_halt ((step_of_getElem? h).trans ?_)
  simp only [stepAt, stepGoto, hl, hback]

/-- A walk stops at a jump that depends on a value. -/
theorem run_gotoIf {test : Comparison} (h : b.lane.code[p]? = some (.gotoIf test l)) :
    run b ⟨p, e, returns, frames⟩ = .ok .dynamic :=
  run_of_halt ((step_of_getElem? h).trans rfl)

/-- A call goes forward to its label and remembers where to return. -/
theorem run_call (h : b.lane.code[p]? = some (.call l))
    (hl : firstLabel? b.lane.code (p + 1) b.last l = some q) :
    run b ⟨p, e, returns, frames⟩ = run b ⟨q, e, (p + 1) :: returns, frames⟩ := by
  refine run_of_next ((step_of_getElem? h).trans ?_)
  simp only [stepAt, hl]

/-- A return goes back to where the last call is remembered. -/
theorem run_ret (h : b.lane.code[p]? = some .ret) :
    run b ⟨p, e, q :: returns, frames⟩ = run b ⟨q, e, returns, frames⟩ :=
  run_of_next ((step_of_getElem? h).trans rfl)

/-- A loop is opened with its count and with the time at which it starts. -/
theorem run_loadRepeat {count : UInt32} (h : b.lane.code[p]? = some (.loadRepeat count)) :
    run b ⟨p, e, returns, frames⟩ =
      run b ⟨p + 1, e, returns, ⟨count.toNat, p, p + 1, e⟩ :: frames⟩ :=
  run_of_next ((step_of_getElem? h).trans rfl)

/-- The last round of a counted loop. -/
theorem run_repeat_last {frame : RepeatFrame} (h : b.lane.code[p]? = some (.repeatFrom l))
    (hlast : frame.remaining ≤ 1) :
    run b ⟨p, e, returns, frame :: frames⟩ = run b ⟨p + 1, e, returns, frames⟩ := by
  have hzero : frame.remaining - 1 = 0 := by omega
  refine run_of_next ((step_of_getElem? h).trans ?_)
  simp only [stepAt, stepRepeat, hzero, if_true, advance]

/-- A counted loop that was entered at its head is multiplied. -/
theorem run_repeat_scaled {frame : RepeatFrame} (h : b.lane.code[p]? = some (.repeatFrom l))
    (hmore : 1 < frame.remaining) (hhead : LabelAt b.lane.code l frame.head) :
    run b ⟨p, e, returns, frame :: frames⟩ =
      run b ⟨p + 1, e + (e - frame.elapsedAtHead).scale (frame.remaining - 1), returns,
        frames⟩ := by
  have hne : frame.remaining - 1 ≠ 0 := by omega
  have hdef : b.lane.code[frame.head]?.any (·.defines l) = true := by
    rw [show b.lane.code[frame.head]? = some (.label l) from hhead]
    exact Instruction.defines_iff.2 rfl
  refine run_of_next ((step_of_getElem? h).trans ?_)
  simp only [stepAt, stepRepeat, hne, if_false, hdef, if_true, advance]
  rfl

/-- The end of a counted loop whose frame was opened after the head of the loop. -/
theorem run_repeat_stuck {frame : RepeatFrame} (h : b.lane.code[p]? = some (.repeatFrom l))
    (hmore : 1 < frame.remaining) (hhead : ¬ LabelAt b.lane.code l frame.head)
    (hlast : lastLabel? b.lane.code (frame.load + 1) p l = none) :
    run b ⟨p, e, returns, frame :: frames⟩ = .error (.unresolvedRepeat b.lane.id l) := by
  have hne : frame.remaining - 1 ≠ 0 := by omega
  have hdef : b.lane.code[frame.head]?.any (·.defines l) = false := by
    rw [Option.any_eq_false_iff_get]
    intro hsome
    rw [Bool.eq_false_iff]
    intro hdef
    refine hhead ?_
    rw [LabelAt, ← Instruction.defines_iff.1 hdef]
    simp
  refine run_of_halt ((step_of_getElem? h).trans ?_)
  simp only [stepAt, stepRepeat, hne, if_false, hdef, hlast]
  rfl

end Instructions

end Walk

/-! ## Lanes without barriers -/

theorem Lane.barriersFrom_eq_nil {code : List Instruction}
    (h : ∀ i ∈ code, i.isBarrier = false) (p : Nat) : barriersFrom p code = [] := by
  induction code generalizing p with
  | nil => rfl
  | cons i code ih =>
    rw [barriersFrom, h i List.mem_cons_self]
    exact ih (fun j hj => h j (List.mem_cons_of_mem i hj)) (p + 1)

/-- A lane without barriers is one block. -/
theorem Lane.block_zero {lane : Lane} (h : ∀ i ∈ lane.code, i.isBarrier = false) :
    lane.block 0 = ⟨lane, 0, lane.code.length, 0⟩ := by
  have hpositions : lane.barrierPositions = [] := barriersFrom_eq_nil h 0
  simp only [Lane.block, hpositions, List.getD_nil, if_true]

end Lockstep
