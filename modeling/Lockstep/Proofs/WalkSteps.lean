import Lockstep.Proofs.Walking

/-!
# The steps of a walk

`Walk.GoesOn` lists the ways in which a walk comes to its next state, with the condition of each;
`goesOn_of_step` says that there are no others. What every walk keeps is proved from this list. The
count of time of an open loop never starts later than the present (`GoesOn.inTime`), so that a body
has a length whenever it is multiplied. `stepAt_eq_halt` says how a walk halts before it has come to
a barrier or to the end of the lane.

`Walk.after` is a walk cut off after a number of steps. The work that is left bounds that number: a
walk over any lane, between any two positions, comes to a result (`Block.halts_within`).
-/

set_option autoImplicit false

namespace Lockstep

/-- Whether a walk ended elsewhere than at the end of its block. -/
def TimingError.isDesync : TimingError → Bool
  | desync _ _ _ _ => true
  | _ => false

/-- Whether the time of an instruction, or whether it is passed, depends on runtime values. -/
def Instruction.isUncertain : Instruction → Bool
  | wait | gotoIf _ _ | compare _ | loadCompare => true
  | _ => false

/-- Whether an instruction takes its time and lets the walk go on to the next one. -/
def Instruction.isTimed : Instruction → Bool
  | pulse _ _ | delay _ | store _ _ | label _ | sync => true
  | _ => false

namespace Walk

/-- A timed instruction is passed in its own time. -/
theorem stepAt_of_isTimed {τ : Type} [Clock τ] {i : Instruction} (h : i.isTimed = true)
    (b : Block) (w : Walk τ) :
    stepAt b w i =
      .next { w.advance with elapsed := w.elapsed + Clock.ofDuration i.duration } := by
  have hzero := Clock.add_ofDuration_zero w.elapsed
  cases i with
  | pulse name duration => rfl
  | delay duration => rfl
  | store dest source => simp only [stepAt, Instruction.duration, hzero, advance]
  | label name => simp only [stepAt, Instruction.duration, hzero, advance]
  | sync => simp only [stepAt, Instruction.duration, hzero, advance]
  | _ => cases h

/-! ## What a step can do -/

/-- The walks to which a walk goes on in one step. -/
inductive GoesOn {τ : Type} [Clock τ] (b : Block) (w : Walk τ) : Walk τ → Prop
  /-- Time passes. -/
  | pass {i : Instruction} :
      b.lane.code[w.cursor]? = some i → i.isTimed = true →
      GoesOn b w ⟨w.cursor + 1, w.elapsed + Clock.ofDuration i.duration, w.returns, w.frames⟩
  /-- Outside of all loops, the clock is set back. -/
  | wait :
      b.lane.code[w.cursor]? = some .wait → w.frames = [] →
      GoesOn b w ⟨w.cursor + 1, Clock.zero, w.returns, []⟩
  | goto {l : Label} {position : Nat} :
      b.lane.code[w.cursor]? = some (.goto l) →
      firstLabel? b.lane.code (w.cursor + 1) b.last l = some position →
      GoesOn b w ⟨position, w.elapsed, w.returns, w.frames⟩
  | call {l : Label} {position : Nat} :
      b.lane.code[w.cursor]? = some (.call l) →
      firstLabel? b.lane.code (w.cursor + 1) b.last l = some position →
      GoesOn b w ⟨position, w.elapsed, (w.cursor + 1) :: w.returns, w.frames⟩
  | ret {position : Nat} {returns : List Nat} :
      b.lane.code[w.cursor]? = some .ret → w.returns = position :: returns →
      GoesOn b w ⟨position, w.elapsed, returns, w.frames⟩
  /-- A counted loop is opened. -/
  | load {count : UInt32} :
      b.lane.code[w.cursor]? = some (.loadRepeat count) →
      GoesOn b w ⟨w.cursor + 1, w.elapsed, w.returns,
        ⟨count.toNat, w.cursor, w.cursor + 1, w.elapsed⟩ :: w.frames⟩
  /-- The last round of a loop ends. -/
  | close {l : Label} {frame : RepeatFrame τ} {frames : List (RepeatFrame τ)} :
      b.lane.code[w.cursor]? = some (.repeatFrom l) → w.frames = frame :: frames →
      frame.remaining ≤ 1 →
      GoesOn b w ⟨w.cursor + 1, w.elapsed, w.returns, frames⟩
  /-- A round that started at the head of its loop stands for all rounds after it. -/
  | multiply {l : Label} {frame : RepeatFrame τ} {frames : List (RepeatFrame τ)} :
      b.lane.code[w.cursor]? = some (.repeatFrom l) → w.frames = frame :: frames →
      1 < frame.remaining → LabelAt b.lane.code l frame.head →
      GoesOn b w ⟨w.cursor + 1,
        w.elapsed + Clock.scale (w.elapsed - frame.elapsedAtHead) (frame.remaining - 1), w.returns,
        frames⟩
  /-- A round that started elsewhere is followed by one from the head. -/
  | goBack {l : Label} {frame : RepeatFrame τ} {frames : List (RepeatFrame τ)} {head : Nat} :
      b.lane.code[w.cursor]? = some (.repeatFrom l) → w.frames = frame :: frames →
      1 < frame.remaining → ¬ LabelAt b.lane.code l frame.head →
      lastLabel? b.lane.code (frame.load + 1) w.cursor l = some head →
      GoesOn b w ⟨head, w.elapsed, w.returns,
        ⟨frame.remaining - 1, frame.load, head, w.elapsed⟩ :: frames⟩

section Steps

variable {τ : Type} [Clock τ] {b : Block} {w w' : Walk τ}

theorem any_defines_iff {code : List Instruction} {l : Label} {p : Nat} :
    code[p]?.any (·.defines l) = true ↔ LabelAt code l p := by
  cases h : code[p]? with
  | none => simp [LabelAt, h]
  | some i => simp [LabelAt, h, Instruction.defines_iff]

/-- The end of a loop goes on in one of the ways there are for it. -/
theorem goesOn_of_stepRepeat {l : Label} (hi : b.lane.code[w.cursor]? = some (.repeatFrom l))
    (h : stepRepeat b l w = .next w') : GoesOn b w w' := by
  unfold stepRepeat at h
  split at h
  · cases h
  · rename_i frame frames hframes
    simp only at h
    split at h
    · rename_i hlast
      cases h
      exact .close hi hframes (by omega)
    · split at h
      · rename_i hmore hhead
        cases h
        exact .multiply hi hframes (by omega) (any_defines_iff.1 hhead)
      · split at h
        · cases h
        · rename_i hmore hhead _ head hlast
          cases h
          exact .goBack hi hframes (by omega) (fun hat => hhead (any_defines_iff.2 hat)) hlast

/-- A step at an instruction goes on in one of the ways there are. -/
theorem goesOn_of_stepAt {i : Instruction} (hi : b.lane.code[w.cursor]? = some i)
    (h : stepAt b w i = .next w') : GoesOn b w w' := by
  -- Timed instructions go on in one way; every other goes on in a way of its own or halts.
  by_cases htimed : i.isTimed = true
  · rw [stepAt_of_isTimed htimed] at h
    cases h
    exact .pass hi htimed
  · cases i with
    | pulse | delay | store | label | sync => exact absurd rfl htimed
    | gotoIf | compare | loadCompare => cases h
    | barrier id lanes =>
      simp only [stepAt] at h
      split at h <;> cases h
    | wait =>
      simp only [stepAt] at h
      split at h
      · rename_i hempty
        cases h
        have hnone := List.isEmpty_iff.1 hempty
        rw [advance, hnone]
        exact .wait hi hnone
      · cases h
    | loadRepeat count =>
      cases h
      exact .load hi
    | repeatFrom l => exact goesOn_of_stepRepeat hi h
    | call l =>
      simp only [stepAt] at h
      split at h
      · rename_i position hposition
        cases h
        exact .call hi hposition
      · cases h
    | ret =>
      simp only [stepAt] at h
      split at h
      · rename_i position returns hreturns
        cases h
        exact .ret hi hreturns
      · cases h
    | goto l =>
      simp only [stepAt, stepGoto] at h
      split at h
      · rename_i position hposition
        cases h
        exact .goto hi hposition
      · split at h <;> cases h

/-- There are no other ways to go on. -/
theorem goesOn_of_step (h : step b w = .next w') : GoesOn b w w' := by
  unfold step at h
  split at h
  · rename_i i hi
    exact goesOn_of_stepAt hi h
  · split at h <;> cases h

/-! ## Counts of time -/

/-- The counts of time of the open loops have started by now. -/
def InTime {τ : Type} [Clock τ] (w : Walk τ) : Prop :=
  ∀ frame ∈ w.frames, Clock.ticks frame.elapsedAtHead ≤ Clock.ticks w.elapsed

/-- Time that goes on, with no loop opened, stays in time. -/
theorem InTime.later (h : w.InTime) (hframes : ∀ frame ∈ w'.frames, frame ∈ w.frames)
    (htime : Clock.ticks w.elapsed ≤ Clock.ticks w'.elapsed) : w'.InTime := by
  intro frame hframe
  exact Nat.le_trans (h frame (hframes frame hframe)) htime

/-- The counts of time stay in the past: the clock is set back only when no loop is open. -/
theorem GoesOn.inTime (hstep : GoesOn b w w') (h : w.InTime) : w'.InTime := by
  cases hstep with
  | pass hi htimed => exact h.later (fun _ hframe => hframe) (Clock.le_ticks_add _ _)
  | wait hi hnone =>
    intro frame hframe
    cases hframe
  | goto => exact h.later (fun _ hframe => hframe) (Nat.le_refl _)
  | call => exact h.later (fun _ hframe => hframe) (Nat.le_refl _)
  | ret => exact h.later (fun _ hframe => hframe) (Nat.le_refl _)
  | load hi =>
    rintro frame (_ | ⟨_, hframe⟩)
    · exact Nat.le_refl _
    · exact h frame hframe
  | close hi hframes hlast =>
    refine h.later (fun frame hframe => ?_) (Nat.le_refl _)
    rw [hframes]
    exact List.mem_cons_of_mem _ hframe
  | multiply hi hframes hmore hhead =>
    refine h.later (fun frame hframe => ?_) (Clock.le_ticks_add _ _)
    rw [hframes]
    exact List.mem_cons_of_mem _ hframe
  | goBack hi hframes hmore hhead hlast =>
    rintro frame (_ | ⟨_, hframe⟩)
    · exact Nat.le_refl _
    · apply h frame
      rw [hframes]
      exact List.mem_cons_of_mem _ hframe

end Steps

/-! ## Where a walk halts -/

section Halts

variable {τ : Type} [Clock τ] {b : Block} {w : Walk τ} {i : Instruction}
  {result : Except TimingError (Timing τ)}

/-- A walk that halts at an instruction does so because of runtime values: it is an uncertain one,
or a jump back in the block. -/
def HaltsOnRuntime {τ : Type} (b : Block) (w : Walk τ) (i : Instruction) : Prop :=
  i.isUncertain = true ∨
    ∃ l, i = .goto l ∧ (firstLabel? b.lane.code b.first (w.cursor + 1) l).isSome = true

/-- Before the end of its block, a walk halts without a time: because of runtime values, or with an
error other than to have missed the end. -/
theorem stepAt_eq_halt (hi : i.isBarrier = false) (h : stepAt b w i = .halt result) :
    result = .ok .dynamic ∧ HaltsOnRuntime b w i ∨
      ∃ e, result = .error e ∧ e.isDesync = false ∧ ¬ HaltsOnRuntime b w i := by
  have hfails : ∀ {e : TimingError}, i.isUncertain = false → (∀ l, i ≠ .goto l) →
      e.isDesync = false → Step.halt (.error e) = .halt result →
      ∃ e, result = .error e ∧ e.isDesync = false ∧ ¬ HaltsOnRuntime b w i := by
    intro e hcertain hjump he hresult
    cases hresult
    refine ⟨e, rfl, he, ?_⟩
    rintro (huncertain | ⟨l, rfl, -⟩)
    · rw [hcertain] at huncertain
      cases huncertain
    · exact hjump l rfl
  cases i with
  | barrier id lanes => cases hi
  | pulse | delay | store | label | sync | loadRepeat => cases h
  | gotoIf | compare | loadCompare =>
    cases h
    exact .inl ⟨rfl, .inl rfl⟩
  | wait =>
    simp only [stepAt] at h
    split at h
    · cases h
    · cases h
      exact .inl ⟨rfl, .inl rfl⟩
  | repeatFrom target =>
    simp only [stepAt, stepRepeat] at h
    split at h
    · exact .inr (hfails rfl (by rintro l ⟨⟩) rfl h)
    · split_ifs at h
      split at h
      · exact .inr (hfails rfl (by rintro l ⟨⟩) rfl h)
      · cases h
  | call target =>
    simp only [stepAt] at h
    split at h
    · cases h
    · exact .inr (hfails rfl (by rintro l ⟨⟩) rfl h)
  | ret =>
    simp only [stepAt] at h
    split at h
    · cases h
    · exact .inr (hfails rfl (by rintro l ⟨⟩) rfl h)
  | goto target =>
    simp only [stepAt, stepGoto] at h
    split at h
    · cases h
    · split at h
      · rename_i hback
        cases h
        refine .inl ⟨rfl, .inr ⟨target, rfl, ?_⟩⟩
        rw [hback]
        rfl
      · rename_i hnone
        cases h
        refine .inr ⟨_, rfl, rfl, ?_⟩
        rintro (huncertain | ⟨l, hl, hback⟩)
        · cases huncertain
        · cases hl
          rw [hnone] at hback
          cases hback

end Halts

/-! ## Walks come to a result -/

section After

variable {τ : Type} [Clock τ] {b : Block} {w w' : Walk τ}

/-- What a walk has come to after a number of steps. -/
def after (b : Block) : Nat → Walk τ → Step τ
  | 0, w => .next w
  | n + 1, w =>
    match step b w with
    | .halt result => .halt result
    | .next w => after b n w

/-- A walk that halts after some steps has that result. -/
theorem run_of_after {n : Nat} {result : Except TimingError (Timing τ)}
    (h : after b n w = .halt result) : run b w = result := by
  induction n generalizing w with
  | zero => cases h
  | succ n ih =>
    cases hstep : step b w with
    | halt found =>
      simp only [after, hstep] at h
      cases h
      exact run_of_halt hstep
    | next v =>
      simp only [after, hstep] at h
      rw [run_of_next hstep]
      exact ih h

/-- A walk stays in time. -/
theorem inTime_of_after {n : Nat} (h : w.InTime) (hafter : after b n w = .next w') :
    w'.InTime := by
  induction n generalizing w with
  | zero =>
    cases hafter
    exact h
  | succ n ih =>
    cases hstep : step b w with
    | halt result =>
      simp only [after, hstep] at hafter
      cases hafter
    | next v =>
      simp only [after, hstep] at hafter
      exact ih ((goesOn_of_step hstep).inTime h) hafter

/-- A walk starts in time, since no loop is open. -/
theorem inTime_start (b : Block) : (b.start τ).InTime := by
  intro frame hframe
  cases hframe

/-- A walk goes on until it halts, with the result of the run, when the work that was left has been
done. -/
theorem halts (b : Block) (w : Walk τ) :
    ∃ n, n ≤ b.work w + 1 ∧ after b n w = .halt (run b w) ∧
      ∀ m, m < n → ∃ v, after b m w = .next v := by
  -- The cursor may go back and the stacks may grow, so the induction is on the work that is left.
  induction hwork : b.work w using Nat.strongRecOn generalizing w with
  | _ work ih =>
    subst hwork
    cases hstep : step b w with
    | halt result =>
      refine ⟨1, by omega, ?_, ?_⟩
      · rw [run_of_halt hstep]
        simp only [after, hstep]
      · intro m hm
        obtain rfl : m = 0 := by omega
        exact ⟨w, rfl⟩
    | next v =>
      have hless := work_step hstep
      obtain ⟨n, hn, hhalt, hbefore⟩ := ih (b.work v) hless v rfl
      refine ⟨n + 1, by omega, ?_, ?_⟩
      · rw [run_of_next hstep]
        simpa only [after, hstep] using hhalt
      · intro m hm
        cases m with
        | zero => exact ⟨w, rfl⟩
        | succ m =>
          obtain ⟨u, hu⟩ := hbefore m (by omega)
          refine ⟨u, ?_⟩
          simpa only [after, hstep] using hu

end After

end Walk

/-- Whatever its instructions are and wherever it starts and ends, a block is walked in finitely
many steps: at most one more than the work of the code from its first position on. Until it halts
with the timing of the block, every loop that is open has a start of its count in the past. -/
theorem Block.halts_within (b : Block) :
    ∃ n, n ≤ workOf (b.lane.code.drop b.first) + 1 ∧
      Walk.after b n b.start = .halt b.timing ∧
      ∀ m, m < n → ∃ w, Walk.after b m b.start = .next w ∧ w.InTime := by
  have hwork : b.work b.start = workOf (b.lane.code.drop b.first) := rfl
  rw [← hwork]
  obtain ⟨n, hn, hhalt, hbefore⟩ := Walk.halts b b.start
  refine ⟨n, hn, hhalt, ?_⟩
  intro m hm
  obtain ⟨w, hw⟩ := hbefore m hm
  exact ⟨w, hw, Walk.inTime_of_after (Walk.inTime_start b) hw⟩

end Lockstep
