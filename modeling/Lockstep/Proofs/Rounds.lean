import Lockstep.Proofs.WalkSteps
import Mathlib.Logic.Relation

/-!
# Rounds of counted loops

The plain walk (`Walk.plainRun`) goes through every round of a counted loop: at the end of a round
that is not the last it goes back to the head of the loop. In a lane that defines no label twice and
never returns from a call, it comes to the same result as the walk that multiplies
(`Block.timing_eq_plainTiming`).

The argument is that later rounds retrace the first. `Moves` says that the plain walk gets from one
position to another in a certain time, and does so whatever the clock shows and whatever loops lie
further out. While a loop is open, the plain walk moves in this sense from the head at which its
count of time started to where the walk stands now (`Retraced`); this is what one step of the walk
preserves (`GoesOn.retraced`). At the end of the loop the move leads from the head to the end with
no other loop opened since, so it can be made once more for each round that is left (`Moves.rounds`).
-/

set_option autoImplicit false

namespace Lockstep

namespace Walk

/-! ## The plain walk -/

/-- The step of the plain walk at the end of a counted loop. -/
def plainRepeat (b : Block) (target : Label) (w : Walk) : Step :=
  match w.frames with
  | [] => .halt (.error (.repeatWithoutLoad b.lane.id w.cursor))
  | frame :: frames =>
    let remaining := frame.remaining - 1
    if remaining = 0 then .next { w.advance with frames }
    else
      match lastLabel? b.lane.code (frame.load + 1) w.cursor target with
      | none => .halt (.error (.unresolvedRepeat b.lane.id target))
      | some head => .next { w with cursor := head, frames := { frame with remaining } :: frames }

/-- One step of the plain walk: that of the walk, except at the end of a counted loop. -/
def plainStep (b : Block) (w : Walk) : Step :=
  match b.lane.code[w.cursor]? with
  | some (.repeatFrom target) => plainRepeat b target w
  | _ => step b w

section PlainSteps

variable {b : Block} {w w' : Walk} {i : Instruction} {l : Label}

theorem plainStep_repeat (hi : b.lane.code[w.cursor]? = some (.repeatFrom l)) :
    plainStep b w = plainRepeat b l w := by
  simp only [plainStep, hi]

theorem plainStep_other (h : ∀ l, b.lane.code[w.cursor]? ≠ some (.repeatFrom l)) :
    plainStep b w = step b w := by
  unfold plainStep
  split
  · rename_i l hi
    exact absurd hi (h l)
  · rfl

theorem plainStep_at (hi : b.lane.code[w.cursor]? = some i) (h : ∀ l, i ≠ .repeatFrom l) :
    plainStep b w = stepAt b w i := by
  rw [plainStep_other, step_of_getElem? hi]
  intro l hl
  rw [hi] at hl
  exact h l (Option.some.inj hl)

/-- The plain walk has work left for each of the rounds, so that it ends as well. -/
theorem work_plainRepeat (hi : b.lane.code[w.cursor]? = some i)
    (h : plainRepeat b l w = .next w') : b.work w' < b.work w := by
  have ahead := b.workFrom_succ_lt hi
  unfold plainRepeat at h
  split at h
  · cases h
  · rename_i frame frames hframes
    simp only at h
    split at h
    · cases h
      simp only [Block.work, advance, hframes, List.foldr_cons]
      omega
    · split at h
      · cases h
      · rename_i hmore _ head hlast
        cases h
        have back := b.workFrom_anti (le_of_lastLabel? hlast)
        obtain ⟨n, hn⟩ : ∃ n, frame.remaining = n + 1 := ⟨frame.remaining - 1, by omega⟩
        simp only [Block.work, hframes, hn, List.foldr_cons, Nat.add_sub_cancel, Nat.add_mul,
          Nat.one_mul]
        omega

/-- Every step of the plain walk lowers the work that is left. -/
theorem work_plainStep (h : plainStep b w = .next w') : b.work w' < b.work w := by
  unfold plainStep at h
  split at h
  · rename_i l hi
    exact work_plainRepeat hi h
  · exact work_step h

end PlainSteps

/-- Walk to the end, going through every round of every loop. -/
def plainRun (b : Block) (w : Walk) : Except TimingError Timing :=
  match _h : plainStep b w with
  | .halt result => result
  | .next w => plainRun b w
termination_by b.work w
decreasing_by exact work_plainStep _h

end Walk

/-- How long a block takes if every round of every loop is gone through. -/
def Block.plainTiming (b : Block) : Except TimingError Timing := Walk.plainRun b b.start

/-- What the plain walk looks at in an open loop: the rounds still to go, and where it was opened.
-/
def RepeatFrame.count (frame : RepeatFrame) : Nat × Nat := (frame.remaining, frame.load)

namespace Walk

/-- The plain walk gets from one state to another. -/
abbrev PlainReaches (b : Block) : Walk → Walk → Prop :=
  Relation.ReflTransGen fun w w' => plainStep b w = .next w'

section PlainRun

variable {b : Block} {w w' : Walk}

theorem plainRun_of_next (h : plainStep b w = .next w') : plainRun b w = plainRun b w' := by
  conv_lhs => unfold plainRun
  split
  · rename_i hstep
    rw [h] at hstep
    cases hstep
  · rename_i hstep
    rw [h] at hstep
    cases hstep
    rfl

theorem plainRun_of_halt {result : Except TimingError Timing} (h : plainStep b w = .halt result) :
    plainRun b w = result := by
  unfold plainRun
  split
  · rename_i hstep
    rw [h] at hstep
    cases hstep
    rfl
  · rename_i hstep
    rw [h] at hstep
    cases hstep

/-- A plain walk comes to the same result from wherever it has got to. -/
theorem PlainReaches.plainRun_eq (h : PlainReaches b w w') : plainRun b w = plainRun b w' := by
  induction h with
  | refl => rfl
  | tail _ hstep ih => rw [ih, plainRun_of_next hstep]

end PlainRun

/-! ## Moves -/

/-- From a position and with some loops open inside, the plain walk gets to another position and to
other loops open inside, and takes the given time. This does not depend on the clock, nor on the
loops that are open further out. -/
def Moves (b : Block) (p : Nat) (counts : List (Nat × Nat)) (time : Nat) (p' : Nat)
    (counts' : List (Nat × Nat)) : Prop :=
  ∀ (e : Duration) (returns : List Nat) (inner outer : List RepeatFrame),
    inner.map RepeatFrame.count = counts →
    ∃ returns' inner', inner'.map RepeatFrame.count = counts' ∧
      PlainReaches b ⟨p, e, returns, inner ++ outer⟩
        ⟨p', e + .clamp time, returns', inner' ++ outer⟩

namespace Moves

variable {b : Block} {p q r time time' : Nat} {counts counts' counts'' : List (Nat × Nat)}
  {l : Label}

theorem refl (b : Block) (p : Nat) (counts : List (Nat × Nat)) : Moves b p counts 0 p counts := by
  intro e returns inner outer hinner
  refine ⟨returns, inner, hinner, ?_⟩
  rw [Duration.add_clamp_zero]

/-- Moves in a row take their times together. -/
theorem trans (h : Moves b p counts time q counts') (h' : Moves b q counts' time' r counts'') :
    Moves b p counts (time + time') r counts'' := by
  intro e returns inner outer hinner
  obtain ⟨returns', inner', hinner', hfirst⟩ := h e returns inner outer hinner
  obtain ⟨returns'', inner'', hinner'', hsecond⟩ := h' (e + .clamp time) returns' inner' outer hinner'
  refine ⟨returns'', inner'', hinner'', ?_⟩
  rw [← Duration.add_clamp_add_clamp]
  exact hfirst.trans hsecond

/-- Loops that were open all along may be counted among those inside. -/
theorem below (h : Moves b p counts time q counts') (kept : List (Nat × Nat)) :
    Moves b p (counts ++ kept) time q (counts' ++ kept) := by
  intro e returns inner outer hinner
  obtain ⟨top, below, rfl, htop, hbelow⟩ := List.map_eq_append_iff.1 hinner
  obtain ⟨returns', top', htop', hreaches⟩ := h e returns top (below ++ outer) htop
  refine ⟨returns', top' ++ below, ?_, ?_⟩
  · rw [List.map_append, htop', hbelow]
  · simpa only [List.append_assoc] using hreaches

/-! The moves of single instructions -/

/-- A timed instruction is a move in its own time. -/
theorem pass {i : Instruction} (hi : b.lane.code[p]? = some i) (htimed : i.isTimed = true) :
    Moves b p [] i.duration.ticks (p + 1) [] := by
  intro e returns inner outer hinner
  obtain rfl := List.map_eq_nil_iff.1 hinner
  refine ⟨returns, [], rfl, .single ?_⟩
  have hother : ∀ l, i ≠ .repeatFrom l := by
    rintro l rfl
    cases htimed
  rw [plainStep_at hi hother, stepAt_of_isTimed htimed, Duration.clamp_ticks]
  rfl

theorem goto (hi : b.lane.code[p]? = some (.goto l))
    (hq : firstLabel? b.lane.code (p + 1) b.last l = some q) : Moves b p [] 0 q [] := by
  intro e returns inner outer hinner
  obtain rfl := List.map_eq_nil_iff.1 hinner
  refine ⟨returns, [], rfl, .single ?_⟩
  rw [plainStep_at hi (by rintro l ⟨⟩), Duration.add_clamp_zero]
  simp only [stepAt, stepGoto, hq]

theorem call (hi : b.lane.code[p]? = some (.call l))
    (hq : firstLabel? b.lane.code (p + 1) b.last l = some q) : Moves b p [] 0 q [] := by
  intro e returns inner outer hinner
  obtain rfl := List.map_eq_nil_iff.1 hinner
  refine ⟨(p + 1) :: returns, [], rfl, .single ?_⟩
  rw [plainStep_at hi (by rintro l ⟨⟩), Duration.add_clamp_zero]
  simp only [stepAt, hq]

/-- To open a loop is a move that leaves it open. -/
theorem load {count : UInt32} (hi : b.lane.code[p]? = some (.loadRepeat count)) :
    Moves b p [] 0 (p + 1) [(count.toNat, p)] := by
  intro e returns inner outer hinner
  obtain rfl := List.map_eq_nil_iff.1 hinner
  refine ⟨returns, [⟨count.toNat, p, p + 1, e⟩], rfl, .single ?_⟩
  rw [plainStep_at hi (by rintro l ⟨⟩), Duration.add_clamp_zero]
  rfl

/-- At the end of the last round the loop is closed. -/
theorem close {remaining load : Nat} (hi : b.lane.code[p]? = some (.repeatFrom l))
    (hlast : remaining ≤ 1) : Moves b p [(remaining, load)] 0 (p + 1) [] := by
  intro e returns inner outer hinner
  obtain ⟨frame, rfl, hframe⟩ := List.map_eq_singleton_iff.1 hinner
  have hzero : frame.remaining - 1 = 0 := by
    have hremaining := (Prod.mk.inj hframe).1
    omega
  refine ⟨returns, [], rfl, .single ?_⟩
  rw [plainStep_repeat hi, Duration.add_clamp_zero]
  simp only [plainRepeat, List.singleton_append, hzero, if_true, advance, List.nil_append]

/-- At the end of any other round the plain walk goes back to the head. -/
theorem goBack {remaining load head : Nat} (hi : b.lane.code[p]? = some (.repeatFrom l))
    (hmore : 1 < remaining) (hhead : lastLabel? b.lane.code (load + 1) p l = some head) :
    Moves b p [(remaining, load)] 0 head [(remaining - 1, load)] := by
  intro e returns inner outer hinner
  obtain ⟨frame, rfl, hframe⟩ := List.map_eq_singleton_iff.1 hinner
  obtain ⟨rfl, rfl⟩ := Prod.mk.inj hframe
  have hne : frame.remaining - 1 ≠ 0 := by omega
  refine ⟨returns, [{ frame with remaining := frame.remaining - 1 }], rfl, .single ?_⟩
  rw [plainStep_repeat hi, Duration.add_clamp_zero]
  simp only [plainRepeat, List.singleton_append, hne, if_false, hhead]

/-- A move from the head of a loop to its end is made once more for each round that is left. -/
theorem rounds {remaining load head : Nat} (hbody : Moves b head [] time p [])
    (hi : b.lane.code[p]? = some (.repeatFrom l))
    (hhead : lastLabel? b.lane.code (load + 1) p l = some head) :
    Moves b p [(remaining, load)] ((remaining - 1) * time) (p + 1) [] := by
  induction hn : remaining - 1 generalizing remaining with
  | zero =>
    rw [Nat.zero_mul]
    exact close hi (by omega)
  | succ n ih =>
    have hback : Moves b p [(remaining, load)] 0 head [(remaining - 1, load)] :=
      goBack hi (by omega) hhead
    have hround : Moves b head [(remaining - 1, load)] time p [(remaining - 1, load)] :=
      hbody.below [(remaining - 1, load)]
    have hrest : Moves b p [(remaining - 1, load)] (n * time) (p + 1) [] := ih (by omega)
    have hall := (hback.trans hround).trans hrest
    rwa [Nat.zero_add, Nat.add_comm, ← Nat.succ_mul] at hall

end Moves

/-! ## Open loops are retraced -/

/-- The head of each open loop lies after the place where the loop was opened, and inside the loops
further out. -/
structure Placed (w : Walk) : Prop where
  heads : ∀ frame ∈ w.frames, frame.load < frame.head ∧ frame.head ≤ w.cursor
  nested : w.frames.Pairwise fun inner outer => outer.head ≤ inner.load

/-- From the head at which the count of time of an open loop started, the plain walk moves to where
the walk stands now, in the time that was counted. -/
structure Retraced (b : Block) (w : Walk) : Prop where
  placed : w.Placed
  moves : ∀ inner frame outer, w.frames = inner ++ frame :: outer →
    ∃ time, w.elapsed = frame.elapsedAtHead + .clamp time ∧
      Moves b frame.head [] time w.cursor (inner.map RepeatFrame.count)

section Preservation

variable {b : Block} {w w' : Walk}

/-- A walk that goes forward, and leaves loops at most, keeps its loops in place. -/
theorem Placed.forward (h : w.Placed) (hframes : ∃ closed, w.frames = closed ++ w'.frames)
    (hcursor : w.cursor ≤ w'.cursor) : w'.Placed := by
  obtain ⟨closed, hclosed⟩ := hframes
  constructor
  · intro frame hframe
    have hmem : frame ∈ w.frames := by
      rw [hclosed]
      exact List.mem_append_right closed hframe
    obtain ⟨hload, hhead⟩ := h.heads frame hmem
    exact ⟨hload, Nat.le_trans hhead hcursor⟩
  · have hnested := h.nested
    rw [hclosed] at hnested
    exact (List.pairwise_append.1 hnested).2.1

/-- Without returns, the only way back leads to the head of the innermost loop. -/
theorem GoesOn.placed (hstep : GoesOn b w w') (hret : .ret ∉ b.lane.code) (h : w.Placed) :
    w'.Placed := by
  cases hstep with
  | pass hi htimed => exact h.forward ⟨[], rfl⟩ (Nat.le_succ _)
  | wait hi hnone => exact h.forward ⟨[], hnone⟩ (Nat.le_succ _)
  | goto hi hposition =>
    have hahead := le_of_firstLabel? hposition
    exact h.forward ⟨[], rfl⟩ (Nat.le_of_succ_le hahead)
  | call hi hposition =>
    have hahead := le_of_firstLabel? hposition
    exact h.forward ⟨[], rfl⟩ (Nat.le_of_succ_le hahead)
  | ret hi => exact absurd (List.mem_of_getElem? hi) hret
  | load hi =>
    constructor
    · rintro frame (_ | ⟨_, hframe⟩)
      · exact ⟨Nat.lt_succ_self _, Nat.le_refl _⟩
      · obtain ⟨hload, hhead⟩ := h.heads frame hframe
        exact ⟨hload, Nat.le_succ_of_le hhead⟩
    · apply List.Pairwise.cons _ h.nested
      intro frame hframe
      exact (h.heads frame hframe).2
  | close hi hframes hlast => exact h.forward ⟨[_], hframes⟩ (Nat.le_succ _)
  | multiply hi hframes hmore hhead => exact h.forward ⟨[_], hframes⟩ (Nat.le_succ _)
  | @goBack l frame frames head hi hframes hmore hhead hlast =>
    have hnested := h.nested
    rw [hframes] at hnested
    obtain ⟨hinside, hrest⟩ := List.pairwise_cons.1 hnested
    have hafter : frame.load + 1 ≤ head := le_of_lastLabel? hlast
    -- The label is looked for after the load, and the load lies inside all loops further out.
    constructor
    · rintro outer (_ | ⟨_, houter⟩)
      · exact ⟨hafter, Nat.le_refl _⟩
      · have hload := (h.heads outer (by rw [hframes]; exact List.mem_cons_of_mem _ houter)).1
        have hbefore := hinside outer houter
        exact ⟨hload, by show outer.head ≤ head; omega⟩
    · exact List.Pairwise.cons hinside hrest

/-- A loop that was entered at its head finds this head again at its end. -/
theorem Placed.lastLabel?_head {frame : RepeatFrame} {l : Label} (h : w.Placed)
    (hapart : LabelsApart b.lane.code) (hmem : frame ∈ w.frames)
    (hi : b.lane.code[w.cursor]? = some (.repeatFrom l)) (hlabel : LabelAt b.lane.code l frame.head) :
    lastLabel? b.lane.code (frame.load + 1) w.cursor l = some frame.head := by
  obtain ⟨hload, hhead⟩ := h.heads frame hmem
  have hne : frame.head ≠ w.cursor := by
    intro heq
    rw [LabelAt, heq, hi] at hlabel
    cases hlabel
  refine lastLabel?_eq_some_iff.2 ⟨hload, by omega, hlabel, ?_⟩
  intro q hq _ hother
  exact absurd (hapart l _ _ hother hlabel) (by omega)

/-- A step of the walk is a move of the plain walk. It touches at most the innermost loop, and a
loop that it leaves with a new count of time is one whose head the walk has just come to. -/
structure Moved (b : Block) (w w' : Walk) (time : Nat) (top top' kept : List RepeatFrame) : Prop where
  before : w.frames = top ++ kept
  after : w'.frames = top' ++ kept
  elapsed : w'.elapsed = w.elapsed + .clamp time
  moves : Moves b w.cursor (top.map RepeatFrame.count) time w'.cursor (top'.map RepeatFrame.count)
  entered : top' = [] ∨
    ∃ frame, top' = [frame] ∧ frame.head = w'.cursor ∧ frame.elapsedAtHead = w'.elapsed

/-- Every step but a wait is a move. At the end of a loop no loop has been opened inside since its
head, so that the round is repeated as it is. -/
theorem GoesOn.moved (hstep : GoesOn b w w') (hapart : LabelsApart b.lane.code)
    (hret : .ret ∉ b.lane.code) (hwait : b.lane.code[w.cursor]? ≠ some .wait) (h : Retraced b w) :
    ∃ time top top' kept, Moved b w w' time top top' kept := by
  have hzero : w.elapsed = w.elapsed + .clamp 0 := (Duration.add_clamp_zero _).symm
  cases hstep with
  | @pass i hi htimed =>
    refine ⟨i.duration.ticks, [], [], w.frames, rfl, rfl, ?_, Moves.pass hi htimed, .inl rfl⟩
    rw [Duration.clamp_ticks, Duration.clock_ofDuration]
  | wait hi => exact absurd hi hwait
  | goto hi hposition =>
    exact ⟨0, [], [], w.frames, rfl, rfl, hzero, Moves.goto hi hposition, .inl rfl⟩
  | call hi hposition =>
    exact ⟨0, [], [], w.frames, rfl, rfl, hzero, Moves.call hi hposition, .inl rfl⟩
  | ret hi => exact absurd (List.mem_of_getElem? hi) hret
  | load hi =>
    exact ⟨0, [], [_], w.frames, rfl, rfl, hzero, Moves.load hi, .inr ⟨_, rfl, rfl, rfl⟩⟩
  | close hi hframes hlast =>
    exact ⟨0, [_], [], _, hframes, rfl, hzero, Moves.close hi hlast, .inl rfl⟩
  | @multiply l frame frames hi hframes hmore hhead =>
    have hmem : frame ∈ w.frames := by
      rw [hframes]
      exact List.mem_cons_self
    obtain ⟨time, htime, hbody⟩ := h.moves [] frame frames hframes
    have hlast := h.placed.lastLabel?_head hapart hmem hi hhead
    refine ⟨_, [frame], [], frames, hframes, rfl, ?_, hbody.rounds hi hlast, .inl rfl⟩
    have hrepeated := Duration.add_clamp_repeated frame.elapsedAtHead time (frame.remaining - 1)
    rw [Nat.succ_mul, Nat.add_comm, ← Duration.add_clamp_add_clamp, ← htime] at hrepeated
    exact hrepeated
  | goBack hi hframes hmore hhead hlast =>
    exact ⟨0, [_], [_], _, hframes, rfl, hzero, Moves.goBack hi hmore hlast,
      .inr ⟨_, rfl, rfl, rfl⟩⟩

/-- A move of the walk lengthens the moves from the heads of all loops that stay open. -/
theorem Moved.retraced {time : Nat} {top top' kept : List RepeatFrame}
    (hmoved : Moved b w w' time top top' kept) (h : Retraced b w) (hplaced : w'.Placed) :
    Retraced b w' := by
  have hkept : ∀ inner frame outer, kept = inner ++ frame :: outer →
      ∃ t, w'.elapsed = frame.elapsedAtHead + .clamp t ∧
        Moves b frame.head [] t w'.cursor ((top' ++ inner).map RepeatFrame.count) := by
    intro inner frame outer hsplit
    have hframes : w.frames = (top ++ inner) ++ frame :: outer := by
      rw [hmoved.before, hsplit, List.append_assoc]
    obtain ⟨t, ht, hmoves⟩ := h.moves _ frame outer hframes
    refine ⟨t + time, ?_, ?_⟩
    · rw [hmoved.elapsed, ht, Duration.add_clamp_add_clamp]
    · rw [List.map_append] at hmoves ⊢
      exact hmoves.trans (hmoved.moves.below _)
  refine ⟨hplaced, ?_⟩
  intro inner frame outer hsplit
  rw [hmoved.after] at hsplit
  rcases hmoved.entered with rfl | ⟨entered, rfl, hhead, htime⟩
  · exact hkept inner frame outer hsplit
  · cases inner with
    | nil =>
      obtain ⟨rfl, -⟩ := List.cons.inj hsplit
      refine ⟨0, ?_, ?_⟩
      · rw [htime, Duration.add_clamp_zero]
      · rw [hhead]
        exact Moves.refl b _ _
    | cons first inner =>
      obtain ⟨rfl, hrest⟩ := List.cons.inj hsplit
      exact hkept inner frame outer hrest

/-- A wait is passed only outside of all loops, and the time starts over. -/
theorem GoesOn.eq_of_wait (hstep : GoesOn b w w')
    (hwait : b.lane.code[w.cursor]? = some .wait) :
    w.frames = [] ∧ w' = ⟨w.cursor + 1, .zero, w.returns, []⟩ := by
  cases hstep with
  | wait hi hnone => exact ⟨hnone, rfl⟩
  | pass hi htimed =>
    rw [hwait] at hi
    cases hi
    cases htimed
  | _ hi =>
    rw [hwait] at hi
    cases hi

/-- Every step lets the open loops be retraced. -/
theorem GoesOn.retraced (hstep : GoesOn b w w') (hapart : LabelsApart b.lane.code)
    (hret : .ret ∉ b.lane.code) (h : Retraced b w) : Retraced b w' := by
  have hplaced := hstep.placed hret h.placed
  by_cases hwait : b.lane.code[w.cursor]? = some .wait
  · obtain ⟨-, rfl⟩ := hstep.eq_of_wait hwait
    refine ⟨hplaced, ?_⟩
    intro inner frame outer hsplit
    cases inner <;> cases hsplit
  · obtain ⟨time, top, top', kept, hmoved⟩ := hstep.moved hapart hret hwait h
    exact hmoved.retraced h hplaced

end Preservation

/-! ## The two walks side by side -/

/-- A state of the plain walk that agrees with a state of the walk. -/
structure Alongside (w v : Walk) : Prop where
  cursor : v.cursor = w.cursor
  elapsed : v.elapsed = w.elapsed
  counts : v.frames.map RepeatFrame.count = w.frames.map RepeatFrame.count

namespace Alongside

variable {b : Block} {w w' v : Walk}

/-- Walks side by side have loops open or not at the same time. -/
theorem isEmpty_eq (h : Alongside w v) : v.frames.isEmpty = w.frames.isEmpty := by
  have hlength := congrArg List.length h.counts
  rw [List.length_map, List.length_map] at hlength
  cases hw : w.frames <;> cases hv : v.frames <;> simp_all

/-- A plain walk halts at the end of a loop where the walk does. -/
theorem plainRepeat_halt {l : Label} {result : Except TimingError Timing} (h : Alongside w v)
    (hhalt : stepRepeat b l w = .halt result) : plainRepeat b l v = .halt result := by
  unfold stepRepeat at hhalt
  split at hhalt
  · rename_i hnone
    have hvnone : v.frames = [] := by
      rw [← List.isEmpty_iff, h.isEmpty_eq, hnone]
      rfl
    simp only [plainRepeat, hvnone, h.cursor]
    exact hhalt
  · rename_i frame frames hframes
    simp only at hhalt
    have hcounts := h.counts
    rw [hframes] at hcounts
    obtain ⟨frame', frames', hvframes, hframe, -⟩ := List.map_eq_cons_iff.1 hcounts
    obtain ⟨hremaining, hload⟩ := Prod.mk.inj hframe
    split at hhalt
    · cases hhalt
    · rename_i hmore
      split at hhalt
      · cases hhalt
      · split at hhalt
        · rename_i hnone
          rw [← hremaining] at hmore
          rw [← hload, ← h.cursor] at hnone
          simp only [plainRepeat, hvframes, hmore, if_false, hnone]
          exact hhalt
        · cases hhalt

/-- The plain walk halts where the walk beside it does, with the same result. -/
theorem plainStep_halt {result : Except TimingError Timing} (h : Alongside w v)
    (hret : .ret ∉ b.lane.code) (hhalt : step b w = .halt result) :
    plainStep b v = .halt result := by
  unfold step at hhalt
  split at hhalt
  · rename_i i hi
    have hvi : b.lane.code[v.cursor]? = some i := by rwa [h.cursor]
    by_cases hrepeat : ∃ l, i = .repeatFrom l
    · obtain ⟨l, rfl⟩ := hrepeat
      rw [plainStep_repeat hvi]
      exact h.plainRepeat_halt hhalt
    · rw [plainStep_at hvi (fun l hl => hrepeat ⟨l, hl⟩), ← hhalt]
      -- Whether a walk halts depends on what both agree on, except at a return.
      cases i with
      | repeatFrom l => exact absurd ⟨l, rfl⟩ hrepeat
      | ret => exact absurd (List.mem_of_getElem? hi) hret
      | barrier id lanes => simp only [stepAt, h.cursor, h.elapsed]
      | wait =>
        simp only [stepAt] at hhalt ⊢
        split at hhalt
        · cases hhalt
        · rename_i hopen
          rw [h.isEmpty_eq, if_neg hopen, if_neg hopen]
      | gotoIf | compare | loadCompare => rfl
      | call l =>
        simp only [stepAt] at hhalt ⊢
        split at hhalt
        · cases hhalt
        · rename_i hnone
          simp only [h.cursor, hnone]
      | goto l =>
        simp only [stepAt, stepGoto] at hhalt ⊢
        split at hhalt
        · cases hhalt
        · rename_i hnone
          simp only [h.cursor, hnone]
      | pulse | delay | store | label | sync | loadRepeat => cases hhalt
  · rename_i hnone
    have hvnone : b.lane.code[v.cursor]? = none := by rwa [h.cursor]
    rw [plainStep_other (by intro l; rw [hvnone]; rintro ⟨⟩), ← hhalt]
    simp only [step, hvnone]
    rw [h.cursor, h.elapsed]

/-- A step of the walk is followed by the plain walk in some steps. -/
theorem goesOn (h : Alongside w v) (hstep : GoesOn b w w') (hapart : LabelsApart b.lane.code)
    (hret : .ret ∉ b.lane.code) (hw : Retraced b w) : ∃ v', PlainReaches b v v' ∧ Alongside w' v' := by
  obtain ⟨p, e, returns, frames⟩ := v
  obtain ⟨rfl, rfl, hcounts⟩ := h
  by_cases hwait : b.lane.code[w.cursor]? = some .wait
  · obtain ⟨hnone, rfl⟩ := hstep.eq_of_wait hwait
    rw [hnone] at hcounts
    obtain rfl := List.map_eq_nil_iff.1 hcounts
    have hplain := plainStep_at (w := ⟨w.cursor, w.elapsed, returns, []⟩) hwait (by rintro l ⟨⟩)
    exact ⟨⟨w.cursor + 1, .zero, returns, []⟩, .single hplain, rfl, rfl, rfl⟩
  · obtain ⟨time, top, top', kept, hmoved⟩ := hstep.moved hapart hret hwait hw
    have hmoves := hmoved.moves.below (kept.map RepeatFrame.count)
    rw [← List.map_append, ← List.map_append, ← hmoved.before, ← hmoved.after] at hmoves
    obtain ⟨returns', frames', hcounts', hreaches⟩ := hmoves w.elapsed returns frames [] hcounts
    rw [List.append_nil, List.append_nil, ← hmoved.elapsed] at hreaches
    exact ⟨_, hreaches, rfl, rfl, hcounts'⟩

/-- Walks side by side come to the same result. -/
theorem run_eq (h : Alongside w v) (hapart : LabelsApart b.lane.code) (hret : .ret ∉ b.lane.code)
    (hw : Retraced b w) : run b w = plainRun b v := by
  -- One step of the walk is many of the plain walk, so the induction follows the walk.
  induction hwork : b.work w using Nat.strongRecOn generalizing w v with
  | _ work ih =>
    subst hwork
    cases hstep : step b w with
    | halt result => rw [run_of_halt hstep, plainRun_of_halt (h.plainStep_halt hret hstep)]
    | next w' =>
      have hgoes := goesOn_of_step hstep
      obtain ⟨v', hreaches, halong⟩ := h.goesOn hgoes hapart hret hw
      rw [run_of_next hstep, hreaches.plainRun_eq]
      exact ih _ (work_step hstep) halong (hgoes.retraced hapart hret hw) rfl

end Alongside

/-- At the start no loop is open. -/
theorem retraced_start (b : Block) : Retraced b b.start := by
  constructor
  · constructor
    · intro frame hframe
      cases hframe
    · exact List.Pairwise.nil
  · intro inner frame outer hsplit
    cases inner <;> cases hsplit

end Walk

/-- In a lane that defines no label twice and has no returns, a block takes as long as if every
round of every counted loop were gone through, and fails or depends on runtime values just as then.
-/
theorem Block.timing_eq_plainTiming (b : Block)
    (hlabels : (b.lane.code.filterMap Instruction.definedLabel).Nodup)
    (hret : .ret ∉ b.lane.code) : b.timing = b.plainTiming := by
  have hstart : Walk.Alongside b.start b.start := ⟨rfl, rfl, rfl⟩
  exact hstart.run_eq (labelsApart_of_nodup hlabels) hret (Walk.retraced_start b)

/-- Three rounds, the first of them entered before the head of the loop, of a loop with more rounds
than could be gone through one by one. -/
def manyRounds : Block :=
  { lane := ⟨⟨0⟩, [.loadRepeat 3, .pulse "A" (.clamp 5), .label ⟨"head"⟩, .loadRepeat 4000000000,
      .label ⟨"inner"⟩, .pulse "X" (.clamp 10), .repeatFrom ⟨"inner"⟩, .repeatFrom ⟨"head"⟩]⟩
    first := 0
    last := 8
    rank := 0 }

theorem plainTiming_manyRounds :
    (manyRounds.lane.code.filterMap Instruction.definedLabel).Nodup ∧
      .ret ∉ manyRounds.lane.code ∧
      manyRounds.plainTiming = .ok (.fixed (.clamp 120000000005)) := by
  refine ⟨by decide, by decide, ?_⟩
  rw [← manyRounds.timing_eq_plainTiming (by decide) (by decide)]
  exact Walk.run_of_after (n := 16) rfl

end Lockstep
