import Lockstep.Proofs.WalkSteps

/-!
# Walks of a piece of code in its surroundings

A block is walked by itself, from its own start and with nothing to return to and no loop open. Once
barriers are replaced, the same code stands at another place of a longer lane, and the walk comes
there with a time behind it, with positions to return to and with loops left open. `Walk.placed`
puts a walk, told by its positions in the piece, into such surroundings. What a walk does in its
block until the end of the piece it does there too: one step at a time (`Walk.stepAt_placed`), and
so up to the end (`Walk.run_placed`).
-/

set_option autoImplicit false

namespace Lockstep

/-! ## Surroundings -/

/-- A frame of a piece that stands from `p` on and is entered at some time. -/
def RepeatFrame.placed (p : Nat) (time : Duration) (f : RepeatFrame) : RepeatFrame :=
  ⟨f.remaining, p + f.load, p + f.head, time + f.elapsedAtHead⟩

/-- A walk through a piece that stands from `p` on and is entered at some time, with positions to
return to and open loops around it. -/
def Walk.placed (p : Nat) (time : Duration) (returns : List Nat) (frames : List RepeatFrame)
    (v : Walk) : Walk where
  cursor := p + v.cursor
  elapsed := time + v.elapsed
  returns := v.returns.map (p + ·) ++ returns
  frames := v.frames.map (·.placed p time) ++ frames

/-- A walk stays within a piece of a length. -/
structure Walk.Within (length : Nat) (v : Walk) : Prop where
  cursor_le : v.cursor ≤ length
  returns_le : ∀ r ∈ v.returns, r ≤ length
  head_lt : v.cursor < length → ∀ f ∈ v.frames, f.head < length

/-- A block is a piece of its lane, which ends at a barrier or with the lane. -/
structure Block.Is (b : Block) (piece : List Instruction) : Prop where
  stands : Stands b.lane.code b.first piece
  last_eq : b.last = b.first + piece.length
  no_barrier : ∀ i ∈ piece, i.isBarrier = false
  ends : b.lane.code[b.last]? = none ∨
    ∃ id lanes, b.lane.code[b.last]? = some (.barrier id lanes)

/-- A body is multiplied in the same way at any time. -/
theorem Duration.add_scaled (time e head : Duration) (n : Nat) :
    time + e + (time + e - (time + head)).scale n = time + (e + (e - head).scale n) := by
  ext
  have htime := time.ticks_le
  have he := e.ticks_le
  have hhead := head.ticks_le
  simp only [ticks_add, ticks_sub, ticks_scale]
  by_cases hfit : time.ticks + e.ticks ≤ maxTicks
  · have hbody : min (time.ticks + e.ticks) maxTicks -
        min (time.ticks + head.ticks) maxTicks = e.ticks - head.ticks := by omega
    rw [hbody]
    omega
  · omega

/-! ## Labels of a piece -/

section Labels

variable {code code' piece : List Instruction} {p q i j stop stop' x : Nat} {l : Label}

theorem Stands.labelAt_iff (h : Stands code p piece) (h' : Stands code' q piece)
    (hj : j < piece.length) : LabelAt code l (p + j) ↔ LabelAt code' l (q + j) := by
  rw [LabelAt, LabelAt, h.get hj, h'.get hj]

/-- A label found ahead in a piece is found ahead wherever the piece stands. -/
theorem Stands.firstLabel?_moved (h : Stands code p piece) (h' : Stands code' q piece)
    (hstop : stop = p + piece.length) (hstop' : q + piece.length ≤ stop')
    (hx : firstLabel? code (p + i) stop l = some x) :
    ∃ j, x = p + j ∧ i ≤ j ∧ j < piece.length ∧
      firstLabel? code' (q + i) stop' l = some (q + j) := by
  obtain ⟨hstart, hlt, hlabel, hmin⟩ := firstLabel?_eq_some_iff.1 hx
  obtain ⟨j, rfl⟩ : ∃ j, x = p + j := ⟨x - p, by omega⟩
  have hj : j < piece.length := by omega
  refine ⟨j, rfl, by omega, hj, firstLabel?_eq_some_iff.2 ⟨by omega, by omega, ?_, ?_⟩⟩
  · exact (h.labelAt_iff h' hj).1 hlabel
  · intro y hy hyx hlab
    obtain ⟨k, rfl⟩ : ∃ k, y = q + k := ⟨y - q, by omega⟩
    exact hmin (p + k) (by omega) (by omega) ((h.labelAt_iff h' (by omega)).2 hlab)

/-- A label found behind in a piece is found behind wherever the piece stands. -/
theorem Stands.lastLabel?_moved (h : Stands code p piece) (h' : Stands code' q piece)
    (hj : j ≤ piece.length) (hx : lastLabel? code (p + i) (p + j) l = some x) :
    ∃ k, x = p + k ∧ i ≤ k ∧ k < j ∧ lastLabel? code' (q + i) (q + j) l = some (q + k) := by
  obtain ⟨hstart, hlt, hlabel, hmax⟩ := lastLabel?_eq_some_iff.1 hx
  obtain ⟨k, rfl⟩ : ∃ k, x = p + k := ⟨x - p, by omega⟩
  refine ⟨k, rfl, by omega, by omega, lastLabel?_eq_some_iff.2 ⟨by omega, by omega, ?_, ?_⟩⟩
  · exact (h.labelAt_iff h' (by omega)).1 hlabel
  · intro y hy hyj hlab
    obtain ⟨m, rfl⟩ : ∃ m, y = q + m := ⟨y - q, by omega⟩
    exact hmax (p + m) (by omega) (by omega) ((h.labelAt_iff h' (by omega)).2 hlab)

end Labels

/-! ## One step -/

namespace Walk

section Step

variable {b b' : Block} {piece : List Instruction} {q : Nat} {time : Duration} {returns : List Nat}
  {frames : List RepeatFrame} {v w : Walk} {l : Label}

/-- A walk in its block, where it comes with nothing behind it. -/
abbrev home (b : Block) (v : Walk) : Walk := v.placed b.first .zero [] []

/-- A step in a block leads to a place in the piece, and is a step in the other surroundings. -/
def MovesAlong (b b' : Block) (piece : List Instruction) (q : Nat) (time : Duration)
    (returns : List Nat) (frames : List RepeatFrame) (v w : Walk) (i : Instruction) : Prop :=
  ∃ v', w = home b v' ∧ v'.Within piece.length ∧
    stepAt b' (v.placed q time returns frames) i = .next (v'.placed q time returns frames)

theorem Within.to {length position : Nat} {e : Duration} (h : v.Within length)
    (hlt : v.cursor < length) (hposition : position ≤ length) :
    Walk.Within length ⟨position, e, v.returns, v.frames⟩ :=
  ⟨hposition, h.returns_le, fun _ => h.head_lt hlt⟩

/-- Instructions that take some time. -/
theorem movesAlong_timed {i : Instruction} {d : Duration}
    (hi : ∀ b (w : Walk), stepAt b w i = .next { w.advance with elapsed := w.elapsed + d })
    (hv : v.Within piece.length) (hlt : v.cursor < piece.length)
    (hstep : stepAt b (home b v) i = .next w) :
    MovesAlong b b' piece q time returns frames v w i := by
  rw [hi] at hstep
  cases hstep
  refine ⟨⟨v.cursor + 1, v.elapsed + d, v.returns, v.frames⟩, ?_, hv.to hlt hlt, ?_⟩
  · simp only [home, placed, Walk.advance, Duration.add_assoc, Nat.add_assoc]
  · rw [hi]
    simp only [placed, Walk.advance, Duration.add_assoc, Nat.add_assoc]

/-- Instructions that are passed over. -/
theorem movesAlong_passed {i : Instruction} (hi : ∀ b (w : Walk), stepAt b w i = .next w.advance)
    (hv : v.Within piece.length) (hlt : v.cursor < piece.length)
    (hstep : stepAt b (home b v) i = .next w) :
    MovesAlong b b' piece q time returns frames v w i := by
  rw [hi] at hstep
  cases hstep
  exact ⟨⟨v.cursor + 1, v.elapsed, v.returns, v.frames⟩, rfl, hv.to hlt hlt, hi _ _⟩

theorem movesAlong_goto (hb : b.Is piece) (hb' : Stands b'.lane.code q piece)
    (hlast : q + piece.length ≤ b'.last) (hv : v.Within piece.length)
    (hlt : v.cursor < piece.length) (hstep : stepAt b (home b v) (.goto l) = .next w) :
    MovesAlong b b' piece q time returns frames v w (.goto l) := by
  simp only [stepAt, stepGoto] at hstep
  split at hstep
  · rename_i x hx
    cases hstep
    have hx' : firstLabel? b.lane.code (b.first + (v.cursor + 1)) b.last l = some x := hx
    obtain ⟨j, rfl, -, hj, hmoved⟩ := hb.stands.firstLabel?_moved hb' hb.last_eq hlast hx'
    refine ⟨⟨j, v.elapsed, v.returns, v.frames⟩, rfl, hv.to hlt (Nat.le_of_lt hj), ?_⟩
    have hahead : firstLabel? b'.lane.code ((v.placed q time returns frames).cursor + 1) b'.last l =
        some (q + j) := hmoved
    simp only [stepAt, stepGoto, hahead]
    rfl
  · -- A label that is not ahead ends the walk in the block, so there is no step to follow.
    split at hstep <;> cases hstep

theorem movesAlong_call (hb : b.Is piece) (hb' : Stands b'.lane.code q piece)
    (hlast : q + piece.length ≤ b'.last) (hv : v.Within piece.length)
    (hlt : v.cursor < piece.length) (hstep : stepAt b (home b v) (.call l) = .next w) :
    MovesAlong b b' piece q time returns frames v w (.call l) := by
  simp only [stepAt] at hstep
  split at hstep
  · rename_i x hx
    cases hstep
    have hx' : firstLabel? b.lane.code (b.first + (v.cursor + 1)) b.last l = some x := hx
    obtain ⟨j, rfl, -, hj, hmoved⟩ := hb.stands.firstLabel?_moved hb' hb.last_eq hlast hx'
    refine ⟨{ v with cursor := j, returns := (v.cursor + 1) :: v.returns }, rfl,
      ⟨Nat.le_of_lt hj, ?_, fun _ => hv.head_lt hlt⟩, ?_⟩
    · intro r hr
      rcases List.mem_cons.1 hr with rfl | hr
      · exact hlt
      · exact hv.returns_le r hr
    · have hahead : firstLabel? b'.lane.code ((v.placed q time returns frames).cursor + 1) b'.last
          l = some (q + j) := hmoved
      simp only [stepAt, hahead]
      rfl
  · cases hstep

theorem movesAlong_ret (hv : v.Within piece.length) (hlt : v.cursor < piece.length)
    (hstep : stepAt b (home b v) .ret = .next w) :
    MovesAlong b b' piece q time returns frames v w .ret := by
  obtain ⟨cursor, elapsed, _ | ⟨r, rs⟩, open'⟩ := v
  · cases hstep
  · cases hstep
    -- The return was pushed in this piece, so it leads to a place in it.
    refine ⟨⟨r, elapsed, rs, open'⟩, rfl, ⟨hv.returns_le r List.mem_cons_self, ?_, ?_⟩, rfl⟩
    · intro r' hr'
      exact hv.returns_le r' (List.mem_cons_of_mem r hr')
    · intro _
      exact hv.head_lt hlt

theorem movesAlong_wait (htime : time = .zero) (hframes : frames = [])
    (hv : v.Within piece.length) (hlt : v.cursor < piece.length)
    (hstep : stepAt b (home b v) .wait = .next w) :
    MovesAlong b b' piece q time returns frames v w .wait := by
  subst htime hframes
  obtain ⟨cursor, elapsed, rs, _ | ⟨f, fs⟩⟩ := v
  · cases hstep
    refine ⟨⟨cursor + 1, .zero, rs, []⟩, ?_, hv.to hlt hlt, ?_⟩
    · simp only [home, placed, Walk.advance, Duration.clock_zero, Duration.zero_add, Nat.add_assoc]
    · simp only [stepAt, placed, List.map_nil, List.nil_append, List.isEmpty_nil, if_true,
        Walk.advance, Duration.clock_zero, Duration.zero_add, Nat.add_assoc]
  · cases hstep

theorem movesAlong_loadRepeat {count : UInt32} (hv : v.Within piece.length)
    (hlt : v.cursor < piece.length)
    (hstep : stepAt b (home b v) (.loadRepeat count) = .next w) :
    MovesAlong b b' piece q time returns frames v w (.loadRepeat count) := by
  cases hstep
  refine ⟨{ v.advance with frames := ⟨count.toNat, v.cursor, v.cursor + 1, v.elapsed⟩ :: v.frames },
    rfl, ⟨hlt, hv.returns_le, ?_⟩, rfl⟩
  intro hnext f hf
  rcases List.mem_cons.1 hf with rfl | hf
  · exact hnext
  · exact hv.head_lt hlt f hf

/-- The end of a counted loop. Frames around the piece stay below, and those of the piece have their
heads in it, so both walks see the same head. -/
theorem movesAlong_repeat (hb : b.Is piece) (hb' : Stands b'.lane.code q piece)
    (hv : v.Within piece.length) (hlt : v.cursor < piece.length)
    (hstep : stepAt b (home b v) (.repeatFrom l) = .next w) :
    MovesAlong b b' piece q time returns frames v w (.repeatFrom l) := by
  obtain ⟨cursor, elapsed, rs, _ | ⟨f, fs⟩⟩ := v
  · cases hstep
  have hhead : f.head < piece.length := hv.head_lt hlt f List.mem_cons_self
  have hrest : ∀ g ∈ fs, g.head < piece.length := fun g hg =>
    hv.head_lt hlt g (List.mem_cons_of_mem f hg)
  have hsame : b'.lane.code[q + f.head]? = b.lane.code[b.first + f.head]? := by
    rw [hb'.get hhead, hb.stands.get hhead]
  simp only [stepAt, stepRepeat, home, placed, List.map_cons, List.cons_append,
    RepeatFrame.placed] at hstep
  split_ifs at hstep with hlastRound hscaled
  · cases hstep
    refine ⟨⟨cursor + 1, elapsed, rs, fs⟩, rfl, ⟨hlt, hv.returns_le, fun _ => hrest⟩, ?_⟩
    simp only [stepAt, stepRepeat, placed, List.map_cons, List.cons_append, RepeatFrame.placed,
      hlastRound, if_true]
    rfl
  · cases hstep
    refine ⟨⟨cursor + 1, elapsed + (elapsed - f.elapsedAtHead).scale (f.remaining - 1), rs, fs⟩, ?_,
      ⟨hlt, hv.returns_le, fun _ => hrest⟩, ?_⟩
    · simp only [home, placed, RepeatFrame.placed, advance, Duration.clock_scale,
        Duration.add_scaled, Nat.add_assoc]
    · simp only [stepAt, stepRepeat, placed, List.map_cons, List.cons_append, RepeatFrame.placed,
        hlastRound, if_false, hsame, hscaled, if_true, advance, Duration.clock_scale,
        Duration.add_scaled, Nat.add_assoc]
  · split at hstep
    · cases hstep
    · rename_i x hx
      cases hstep
      have hx' : lastLabel? b.lane.code (b.first + (f.load + 1)) (b.first + cursor) l = some x := hx
      obtain ⟨k, rfl, -, hk, hmoved⟩ := hb.stands.lastLabel?_moved hb' hv.cursor_le hx'
      have hbehind : lastLabel? b'.lane.code (q + f.load + 1) (q + cursor) l = some (q + k) :=
        hmoved
      refine ⟨⟨k, elapsed, rs, ⟨f.remaining - 1, f.load, k, elapsed⟩ :: fs⟩, rfl,
        ⟨Nat.le_of_lt (Nat.lt_trans hk hlt), hv.returns_le, ?_⟩, ?_⟩
      · intro hkl g hg
        rcases List.mem_cons.1 hg with rfl | hg
        · exact hkl
        · exact hrest g hg
      · simp only [stepAt, stepRepeat, placed, List.map_cons, List.cons_append, RepeatFrame.placed,
          hlastRound, if_false, hsame, hscaled, hbehind]
        rfl

/-- What a walk does at an instruction of its block it does wherever the block is put. A `wait`
starts the time anew, so it must not come after other code, nor in a loop that was left open. -/
theorem stepAt_placed {i : Instruction} (hb : b.Is piece) (hb' : Stands b'.lane.code q piece)
    (hlast : q + piece.length ≤ b'.last) (hwait : .wait ∈ piece → time = .zero ∧ frames = [])
    (hv : v.Within piece.length) (hlt : v.cursor < piece.length) (hi : i ∈ piece)
    (hstep : stepAt b (home b v) i = .next w) :
    MovesAlong b b' piece q time returns frames v w i := by
  cases i with
  | barrier id lanes => exact absurd (hb.no_barrier _ hi) Bool.noConfusion
  | pulse name d => exact movesAlong_timed (fun _ _ => rfl) hv hlt hstep
  | delay d => exact movesAlong_timed (fun _ _ => rfl) hv hlt hstep
  | store dest source => exact movesAlong_passed (fun _ _ => rfl) hv hlt hstep
  | label name => exact movesAlong_passed (fun _ _ => rfl) hv hlt hstep
  | sync => exact movesAlong_passed (fun _ _ => rfl) hv hlt hstep
  | wait => exact movesAlong_wait (hwait hi).1 (hwait hi).2 hv hlt hstep
  | gotoIf test target => cases hstep
  | compare test => cases hstep
  | loadCompare => cases hstep
  | loadRepeat count => exact movesAlong_loadRepeat hv hlt hstep
  | repeatFrom target => exact movesAlong_repeat hb hb' hv hlt hstep
  | call target => exact movesAlong_call hb hb' hlast hv hlt hstep
  | ret => exact movesAlong_ret hv hlt hstep
  | goto target => exact movesAlong_goto hb hb' hlast hv hlt hstep

/-- Before the end of its block a walk does not halt with a time. -/
theorem stepAt_ne_halt_fixed {i : Instruction} {t : Duration} (hi : i.isBarrier = false) :
    stepAt b w i ≠ .halt (.ok (.fixed t)) := by
  intro h
  rcases stepAt_eq_halt hi h with ⟨hdynamic, -⟩ | ⟨e, herror, -⟩
  · cases hdynamic
  · cases herror

end Step

/-! ## Whole walks -/

section Run

variable {b b' : Block} {piece : List Instruction} {q : Nat} {time : Duration} {returns : List Nat}
  {frames : List RepeatFrame}

theorem step_last {w : Walk} (hb : b.Is piece) (hlast : w.cursor = b.last) :
    step b w = .halt (.ok (.fixed w.elapsed)) := by
  rcases hb.ends with hnone | ⟨id, lanes, hbarrier⟩
  · rw [← hlast] at hnone
    simp only [step, hnone]
    exact if_pos hlast
  · rw [← hlast] at hbarrier
    rw [step_of_getElem? hbarrier]
    exact if_pos hlast

/-- At the end of its block a walk stops with its time. -/
theorem run_last {w : Walk} (hb : b.Is piece) (hlast : w.cursor = b.last) :
    run b w = .ok (.fixed w.elapsed) :=
  run_of_halt (step_last hb hlast)

theorem step_home_end {v : Walk} (hb : b.Is piece) (hend : v.cursor = piece.length) :
    step b (home b v) = .halt (.ok (.fixed v.elapsed)) := by
  have hlast : (home b v).cursor = b.last := by rw [hb.last_eq, ← hend]; rfl
  have helapsed : (home b v).elapsed = v.elapsed := Duration.zero_add v.elapsed
  rw [step_last hb hlast, helapsed]

/-- Before the end of a piece, a walk through it stands at one of its instructions. -/
theorem step_placed {v : Walk} (hb : Stands b.lane.code q piece) (hlt : v.cursor < piece.length) :
    step b (v.placed q time returns frames) =
      stepAt b (v.placed q time returns frames) piece[v.cursor] := by
  apply step_of_getElem?
  rw [← List.getElem?_eq_getElem hlt]
  exact hb.get hlt

/-- A walk whose time is known in its block takes that time wherever the block is put, and comes to
the end of it there. -/
theorem run_placed (hb : b.Is piece) (hb' : Stands b'.lane.code q piece)
    (hlast : q + piece.length ≤ b'.last) (hwait : .wait ∈ piece → time = .zero ∧ frames = [])
    {t : Duration} (v : Walk) (hv : v.Within piece.length)
    (hrun : run b (home b v) = .ok (.fixed t)) :
    ∃ returns' frames', run b' (v.placed q time returns frames) =
      run b' ⟨q + piece.length, time + t, returns', frames'⟩ := by
  -- The walk in the block goes on as long as the block has work, and the other one goes with it.
  induction hwork : b.work (home b v) using Nat.strongRecOn generalizing v with
  | _ n ih =>
    rcases Nat.lt_or_eq_of_le hv.cursor_le with hlt | hend
    · have hmem : piece[v.cursor] ∈ piece := List.getElem_mem hlt
      have hstep : step b (home b v) = stepAt b (home b v) piece[v.cursor] :=
        step_placed hb.stands hlt
      have hstep' : step b' (v.placed q time returns frames) =
          stepAt b' (v.placed q time returns frames) piece[v.cursor] := step_placed hb' hlt
      cases hnext : stepAt b (home b v) piece[v.cursor] with
      | halt result =>
        rw [run_of_halt (hstep.trans hnext)] at hrun
        rw [hrun] at hnext
        exact absurd hnext (stepAt_ne_halt_fixed (hb.no_barrier _ hmem))
      | next w =>
        have hmoves : MovesAlong b b' piece q time returns frames v w piece[v.cursor] :=
          stepAt_placed hb hb' hlast hwait hv hlt hmem hnext
        obtain ⟨v', rfl, hv', haway⟩ := hmoves
        rw [run_of_next (hstep.trans hnext)] at hrun
        obtain ⟨returns', frames', h⟩ :=
          ih _ (hwork ▸ work_step (hstep.trans hnext)) v' hv' hrun rfl
        exact ⟨returns', frames', (run_of_next (hstep'.trans haway)).trans h⟩
    · rw [run_of_halt (step_home_end hb hend)] at hrun
      cases hrun
      refine ⟨(v.placed q time returns frames).returns, (v.placed q time returns frames).frames, ?_⟩
      rw [← hend]
      rfl

/-- A walk that enters a piece. -/
def entry : Walk := ⟨0, .zero, [], []⟩

theorem within_entry (length : Nat) : entry.Within length where
  cursor_le := Nat.zero_le length
  returns_le := fun _ hr => absurd hr List.not_mem_nil
  head_lt := fun _ _ hf => absurd hf List.not_mem_nil

theorem placed_entry (q : Nat) (time : Duration) (returns : List Nat) (frames : List RepeatFrame) :
    entry.placed q time returns frames = ⟨q, time, returns, frames⟩ := by
  have htime : time + .zero = time := Duration.add_clamp_zero time
  simp only [placed, entry, htime, Nat.add_zero, List.map_nil, List.nil_append]

theorem home_entry (b : Block) : home b entry = b.start :=
  placed_entry b.first .zero [] []

/-- A block whose time is known takes that time wherever it is put. -/
theorem run_block_placed {t : Duration} (hb : b.Is piece) (hb' : Stands b'.lane.code q piece)
    (hlast : q + piece.length ≤ b'.last) (hwait : .wait ∈ piece → time = .zero ∧ frames = [])
    (htiming : b.timing = .ok (.fixed t)) :
    ∃ returns' frames', run b' ⟨q, time, returns, frames⟩ =
      run b' ⟨q + piece.length, time + t, returns', frames'⟩ := by
  rw [← placed_entry q time returns frames]
  refine run_placed hb hb' hlast hwait entry (within_entry _) ?_
  rw [home_entry]
  exact htiming

end Run

end Walk

/-- An empty block takes no time. -/
theorem Block.Is.timing_of_nil {b : Block} (hb : b.Is []) : b.timing = .ok (.fixed .zero) := by
  have hend := Walk.run_of_halt (Walk.step_home_end (v := .entry) hb rfl)
  rwa [Walk.home_entry] at hend

end Lockstep
