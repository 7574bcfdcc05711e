import Lockstep.Proofs.Compiled
import Lockstep.Proofs.StructuredTime
import Lockstep.Proofs.Walking

/-!
# The time of lowered code

A walk through lowered code gives the account of its statements with counts left behind: the frames
that are open after the walk are those of the counted loops that were left by `break`. `Metered`
relates the two and `Lowered.metered` is the simulation, by induction on the lowering. So the timing
of a lowered lane is what that account amounts to (`Lowered.timing_eq_ok_iff`), and the structured
time wherever the two accounts agree.
-/

set_option autoImplicit false

namespace Lockstep

/-! ## Metered walks -/

/-- The positions from `first` up to `last` are in a block, whose lane has its labels apart. -/
structure Block.Holds (b : Block) (first last : Nat) : Prop where
  first_le : b.first ≤ first
  le_last : last ≤ b.last
  apart : LabelsApart b.lane.code

namespace Block.Holds

variable {b : Block} {first last first' last' : Nat} {code others : List Instruction}

theorem narrow (h : b.Holds first last) (hfirst : first ≤ first') (hlast : last' ≤ last) :
    b.Holds first' last' :=
  ⟨Nat.le_trans h.first_le hfirst, Nat.le_trans hlast h.le_last, h.apart⟩

theorem left (h : b.Holds first (first + (code ++ others).length)) :
    b.Holds first (first + code.length) := by
  rw [List.length_append] at h
  exact h.narrow (Nat.le_refl _) (by omega)

theorem right (h : b.Holds first (first + (code ++ others).length)) :
    b.Holds (first + code.length) (first + code.length + others.length) := by
  rw [List.length_append] at h
  exact h.narrow (by omega) (by omega)

end Block.Holds

/-- The frames of counted loops that were left open from a position on. -/
def LeftOpen (first : Nat) : List Nat → List RepeatFrame → Prop :=
  List.Forall₂ fun count frame =>
    frame.remaining = count ∧ first ≤ frame.load ∧ frame.head = frame.load + 1

/-- A walk does what an account of the statements from `first` up to `last` says. -/
def Metered (b : Block) (loops : List LoopLabels) (returns : List Nat) (first last : Nat)
    (w : Walk) : Meter → Prop
  | .dynamic => Walk.run b w = .ok .dynamic
  | .stuck => ∃ target, Walk.run b w = .error (.unresolvedRepeat b.lane.id target)
  | .done ticks o left => ∃ position frames, o.Exit b.lane.code loops first last position ∧
      LeftOpen first left frames ∧
        Walk.run b w = Walk.run b ⟨position, w.elapsed + .clamp ticks, returns, frames ++ w.frames⟩

theorem LeftOpen.earlier {first first' : Nat} {counts : List Nat} {frames : List RepeatFrame}
    (h : LeftOpen first counts frames) (hle : first' ≤ first) : LeftOpen first' counts frames :=
  h.imp fun _ _ ⟨hcount, hload, hhead⟩ => ⟨hcount, Nat.le_trans hle hload, hhead⟩

theorem LeftOpen.append {first : Nat} {counts counts' : List Nat}
    {frames frames' : List RepeatFrame}
    (h : LeftOpen first counts frames) (h' : LeftOpen first counts' frames') :
    LeftOpen first (counts ++ counts') (frames ++ frames') :=
  List.rel_append h h'

section Metering

variable {b : Block} {loops : List LoopLabels} {returns : List Nat} {first mid last : Nat}
  {w w' : Walk} {m next : Meter}

theorem Metered.andThen (h : Metered b loops returns first mid w m) (hfirst : first ≤ mid)
    (hlast : mid ≤ last)
    (hnext : ∀ e frames, Metered b loops returns mid last ⟨mid, e, returns, frames⟩ next) :
    Metered b loops returns first last w (m.andThen next) := by
  cases m with
  | dynamic => exact h
  | stuck => exact h
  | done ticks o left =>
    obtain ⟨position, frames, hexit, hopen, hrun⟩ := h
    by_cases ho : o = .done
    · subst ho
      obtain rfl : position = mid := hexit
      have hrest := hnext (w.elapsed + .clamp ticks) (frames ++ w.frames)
      cases next with
      | dynamic => exact hrun.trans hrest
      | stuck =>
        obtain ⟨target, hstuck⟩ := hrest
        exact ⟨target, hrun.trans hstuck⟩
      | done more o' left' =>
        obtain ⟨position', frames', hexit', hopen', hrun'⟩ := hrest
        refine ⟨position', frames' ++ frames, hexit'.earlier hfirst,
          (hopen'.earlier hfirst).append hopen, hrun.trans (hrun'.trans ?_)⟩
        rw [Duration.add_clamp_add_clamp, List.append_assoc]
    · rw [Meter.andThen_of_ne ho]
      exact ⟨position, frames, hexit.widen ho (Nat.le_refl _) hlast, hopen, hrun⟩

/-- An account that is done is that of a walk to its end. -/
theorem Metered.done {ticks : Nat}
    (hrun : Walk.run b w = Walk.run b ⟨last, w.elapsed + .clamp ticks, returns, w.frames⟩) :
    Metered b loops returns first last w (.done ticks .done []) :=
  ⟨last, [], rfl, .nil, hrun⟩

end Metering

/-! ## Jumps in a block -/

section Jumps

variable {b : Block} {p q first last : Nat} {e : Duration} {returns : List Nat}
  {frames : List RepeatFrame} {l : Label}

theorem Block.Holds.firstLabel?_ahead (hb : b.Holds first last) (hl : LabelAt b.lane.code l q)
    (hlt : p < q) (hq : q < last) : firstLabel? b.lane.code (p + 1) b.last l = some q :=
  firstLabel?_eq hb.apart hl hlt (Nat.lt_of_lt_of_le hq hb.le_last)

theorem Block.Holds.run_goto (hb : b.Holds first last) (h : b.lane.code[p]? = some (.goto l))
    (hl : LabelAt b.lane.code l q) (hlt : p < q) (hq : q < last) :
    Walk.run b ⟨p, e, returns, frames⟩ = Walk.run b ⟨q, e, returns, frames⟩ :=
  Walk.run_goto h (hb.firstLabel?_ahead hl hlt hq)

theorem Block.Holds.run_goto_back (hb : b.Holds first last) (h : b.lane.code[p]? = some (.goto l))
    (hl : LabelAt b.lane.code l q) (hle : q ≤ p) (hq : first ≤ q) :
    Walk.run b ⟨p, e, returns, frames⟩ = .ok .dynamic := by
  have hnone : firstLabel? b.lane.code (p + 1) b.last l = none :=
    firstLabel?_eq_none hb.apart hl (.inl (Nat.lt_succ_of_le hle))
  have hsome : firstLabel? b.lane.code b.first (p + 1) l = some q :=
    firstLabel?_eq hb.apart hl (Nat.le_trans hb.first_le hq) (Nat.lt_succ_of_le hle)
  exact Walk.run_goto_back h hnone hsome

end Jumps

/-! ## Loops -/

theorem LoopExit.constTruth?_of_ofTest {test : Expr} {loc : Location} {exit : LoopExit}
    (h : LoopExit.ofTest test loc = .ok exit) :
    test.constTruth? = match exit with
      | .never => some true
      | .always => some false
      | .when _ => none := by
  unfold ofTest at h
  split at h
  · rename_i hconst
    cases h
    exact hconst
  · rename_i hconst
    cases h
    exact hconst
  · rename_i hconst
    cases hc : test.comparison loc with
    | error e =>
      rw [hc] at h
      cases h
    | ok c =>
      rw [hc] at h
      cases h
      exact hconst

section Loops

variable {b : Block} {loops : List LoopLabels} {returns : List Nat} {n p : Nat} {e : Duration}
  {frames : List RepeatFrame} {m : Meter}

section While

variable {exit : LoopExit} {inner : List Instruction} {body back : Nat}

/-- A loop that is never left before its body. -/
theorem WhilePlaced.metered_forever (hp : WhilePlaced b.lane.code n .never inner p body back)
    (hb : b.Holds p (back + 2))
    (hbody : Metered b (whileLabels n :: loops) returns body back ⟨body, e, returns, frames⟩ m) :
    Metered b loops returns p (back + 2) ⟨p, e, returns, frames⟩ m.forever := by
  obtain rfl : body = p + 1 := hp.body_eq
  have hback := hp.back_eq
  have hin : Walk.run b ⟨p, e, returns, frames⟩ = Walk.run b ⟨p + 1, e, returns, frames⟩ :=
    Walk.run_label hp.headAt
  cases m with
  | dynamic => exact hin.trans hbody
  | stuck =>
    obtain ⟨target, hstuck⟩ := hbody
    exact ⟨target, hin.trans hstuck⟩
  | done ticks o left =>
    obtain ⟨position, open', hexit, hopen, hrun⟩ := hbody
    by_cases ho : o = .broke
    · subst ho
      refine ⟨back + 2, open', rfl, hopen.earlier (by omega), hin.trans (hrun.trans ?_)⟩
      rw [hb.run_goto hexit.goto_break hp.tailAt (by have := hexit.2.1; omega) (by omega),
        Walk.run_label hp.tailAt]
    · rw [Meter.forever_of_ne ho]
      refine hin.trans (hrun.trans ?_)
      cases o with
      | done =>
        obtain rfl : position = back := hexit
        exact hb.run_goto_back hp.backAt hp.headAt (by omega) (Nat.le_refl p)
      | broke => exact absurd rfl ho
      | continued =>
        have hafter := hexit.1
        exact hb.run_goto_back hexit.goto_continue hp.headAt (by omega) (Nat.le_refl p)

/-- A loop that is left before its body. -/
theorem WhilePlaced.metered_skipped (hp : WhilePlaced b.lane.code n .always inner p body back)
    (hb : b.Holds p (back + 2)) :
    Metered b loops returns p (back + 2) ⟨p, e, returns, frames⟩ (.done 0 .done []) := by
  obtain rfl : body = p + 1 + 1 := hp.body_eq
  have hback := hp.back_eq
  refine .done ?_
  rw [Duration.add_clamp_zero, Walk.run_label hp.headAt,
    hb.run_goto hp.exitAt.head hp.tailAt (by omega) (by omega), Walk.run_label hp.tailAt]

/-- A loop with a test that is not known. -/
theorem WhilePlaced.metered_tested {test : Comparison}
    (hp : WhilePlaced b.lane.code n (.when test) inner p body back) :
    Metered b loops returns p (back + 2) ⟨p, e, returns, frames⟩ .dynamic := by
  show Walk.run b _ = _
  rw [Walk.run_label hp.headAt, Walk.run_gotoIf hp.exitAt.head]

end While

section Repeat

variable {count : UInt32} {inner : List Instruction} {round : Nat}

/-- A counted loop is entered with a frame of its own. -/
theorem RepeatPlaced.run_enter (hp : RepeatPlaced b.lane.code n count inner p round)
    (hb : b.Holds p (round + 5)) :
    Walk.run b ⟨p, e, returns, frames⟩ =
      Walk.run b ⟨p + 5, e, (p + 1) :: returns, ⟨count.toNat, p + 3, p + 4, e⟩ :: frames⟩ := by
  have hround := hp.round_eq
  rw [Walk.run_call hp.enterAt (hb.firstLabel?_ahead hp.startAt (by omega) (by omega)),
    Walk.run_label hp.startAt, Walk.run_loadRepeat hp.loadAt, Walk.run_label hp.headAt]

/-- A counted loop is left by way of its return. -/
theorem RepeatPlaced.run_leave (hp : RepeatPlaced b.lane.code n count inner p round)
    (hb : b.Holds p (round + 5)) :
    Walk.run b ⟨round + 2, e, (p + 1) :: returns, frames⟩ =
      Walk.run b ⟨round + 5, e, returns, frames⟩ := by
  have hround := hp.round_eq
  rw [Walk.run_label hp.exitAt, Walk.run_ret hp.backAt,
    hb.run_goto hp.leaveAt hp.tailAt (by omega) (by omega), Walk.run_label hp.tailAt]

/-- The end of a round that left no loop open: the loop finds its own frame. -/
theorem RepeatPlaced.run_own_round (hp : RepeatPlaced b.lane.code n count inner p round)
    (hb : b.Holds p (round + 5)) (ticks : Nat) :
    Walk.run b ⟨round + 1, e + .clamp ticks, (p + 1) :: returns,
        ⟨count.toNat, p + 3, p + 4, e⟩ :: frames⟩ =
      Walk.run b ⟨round + 5, e + .clamp (max count.toNat 1 * ticks), returns, frames⟩ := by
  by_cases hlast : count.toNat ≤ 1
  · have hone : max count.toNat 1 = 1 := by omega
    rw [Walk.run_repeat_last hp.againAt hlast, hp.run_leave hb, hone, Nat.one_mul]
  · have hmore : 1 < count.toNat := by omega
    have hcount : max count.toNat 1 = count.toNat - 1 + 1 := by omega
    rw [Walk.run_repeat_scaled hp.againAt hmore hp.headAt, hp.run_leave hb, hcount,
      Duration.add_clamp_repeated]

/-- The end of a round that left loops open: the loop finds the frame that was left last. -/
theorem RepeatPlaced.run_other_round (hp : RepeatPlaced b.lane.code n count inner p round)
    (hb : b.Holds p (round + 5)) (e : Duration) (returns : List Nat) (frames : List RepeatFrame)
    {frame : RepeatFrame} (hload : p + 5 ≤ frame.load)
    (hhead : frame.head = frame.load + 1) :
    if frame.remaining ≤ 1 then
      Walk.run b ⟨round + 1, e, (p + 1) :: returns, frame :: frames⟩ =
        Walk.run b ⟨round + 5, e, returns, frames⟩
    else Walk.run b ⟨round + 1, e, (p + 1) :: returns, frame :: frames⟩ =
      .error (.unresolvedRepeat b.lane.id (.indexed "rloop" n)) := by
  by_cases hlast : frame.remaining ≤ 1
  · rw [if_pos hlast, Walk.run_repeat_last hp.againAt hlast, hp.run_leave hb]
  · rw [if_neg hlast]
    -- The head of the loop stands before all frames that its body opened.
    have hother : ¬ LabelAt b.lane.code (.indexed "rloop" n) frame.head := by
      intro hlabel
      have := hb.apart _ _ _ hlabel hp.headAt
      omega
    exact Walk.run_repeat_stuck hp.againAt (by omega) hother
      (lastLabel?_eq_none hb.apart hp.headAt (by omega))

/-- A counted loop. -/
theorem RepeatPlaced.metered (hp : RepeatPlaced b.lane.code n count inner p round)
    (hb : b.Holds p (round + 5))
    (hbody : Metered b (repeatLabels n :: loops) ((p + 1) :: returns) (p + 5) round
      ⟨p + 5, e, (p + 1) :: returns, ⟨count.toNat, p + 3, p + 4, e⟩ :: frames⟩ m) :
    Metered b loops returns p (round + 5) ⟨p, e, returns, frames⟩ (m.times count.toNat) := by
  have hround := hp.round_eq
  have henter : Walk.run b ⟨p, e, returns, frames⟩ = _ := hp.run_enter hb
  have hown : LeftOpen p [count.toNat] [⟨count.toNat, p + 3, p + 4, e⟩] :=
    .cons ⟨rfl, Nat.le_add_right p 3, rfl⟩ .nil
  cases m with
  | dynamic => exact henter.trans hbody
  | stuck =>
    obtain ⟨target, hstuck⟩ := hbody
    exact ⟨target, henter.trans hstuck⟩
  | done ticks o left =>
    obtain ⟨position, open', hexit, hopen, hrun⟩ := hbody
    by_cases ho : o = .broke
    · subst ho
      -- `break` jumps past the end of the round, so the loop's own frame stays open as well.
      refine ⟨round + 5, open' ++ [⟨count.toNat, p + 3, p + 4, e⟩], rfl,
        (hopen.earlier (by omega)).append hown, henter.trans (hrun.trans ?_)⟩
      rw [hb.run_goto hexit.goto_break hp.exitAt (by have := hexit.2.1; omega) (by omega),
        hp.run_leave hb, List.append_assoc]
      rfl
    · have hend : ∀ (e' : Duration) frames', Walk.run b ⟨position, e', (p + 1) :: returns, frames'⟩ =
          Walk.run b ⟨round + 1, e', (p + 1) :: returns, frames'⟩ := by
        intro e' frames'
        cases o with
        | done =>
          obtain rfl : position = round := hexit
          exact Walk.run_label hp.roundAt
        | broke => exact absurd rfl ho
        | continued =>
          rw [hb.run_goto hexit.goto_continue hp.roundAt (by have := hexit.2.1; omega) (by omega),
            Walk.run_label hp.roundAt]
      have hwalk := henter.trans (hrun.trans (hend _ _))
      rw [Meter.times_of_ne ho]
      -- The end of the round takes the frame on top: the loop's own one, or one that was left open.
      cases hopen with
      | nil => exact .done (hwalk.trans (hp.run_own_round hb ticks))
      | @cons c frame left open' hframe hrest =>
        obtain ⟨rfl, hload, hhead⟩ := hframe
        have hother := hp.run_other_round hb (e + .clamp ticks) returns
          (open' ++ ⟨count.toNat, p + 3, p + 4, e⟩ :: frames) hload hhead
        rw [Meter.endRound]
        by_cases hlast : frame.remaining ≤ 1
        · rw [if_pos hlast] at hother ⊢
          refine ⟨round + 5, open' ++ [⟨count.toNat, p + 3, p + 4, e⟩], rfl,
            (LeftOpen.earlier hrest (by omega)).append hown,
            hwalk.trans (hother.trans ?_)⟩
          rw [List.append_assoc]
          rfl
        · rw [if_neg hlast] at hother ⊢
          exact ⟨_, hwalk.trans hother⟩

end Repeat

end Loops

/-! ## Statements -/

section Statements

variable {b : Block} {loops : List LoopLabels} {lane : LaneId} {returns : List Nat} {p : Nat}
  {e : Duration} {frames : List RepeatFrame}

theorem Stands.run_call {c : Call} {purpose : Purpose}
    (h : Stands b.lane.code p (inlineAll lane (callShape c purpose))) :
    Walk.run b ⟨p, e, returns, frames⟩ =
      Walk.run b ⟨p + (inlineAll lane (callShape c purpose)).length,
        e + .clamp (eventTicks (callEvents c purpose)), returns, frames⟩ := by
  cases purpose with
  | channelCreation =>
    simp only [callShape, callEvents, inlineAll_nil, eventTicks, Duration.add_clamp_zero]
    rfl
  | plain | measurement | runtime =>
    simp only [callShape, callEvents, inlineAll_ops, eventTicks, Nat.add_zero,
      Duration.clamp_ticks] at h ⊢
    exact Walk.run_timed h.head fun _ => rfl

theorem Stands.run_assign {target : String} {value : Expr} {purpose : Purpose}
    (h : Stands b.lane.code p (inlineAll lane (assignShape target value purpose))) :
    Walk.run b ⟨p, e, returns, frames⟩ =
      Walk.run b ⟨p + (inlineAll lane (assignShape target value purpose)).length,
        e + .clamp (eventTicks (assignEvents target value purpose)), returns, frames⟩ := by
  cases purpose with
  | plain | channelCreation =>
    simp only [assignShape, assignEvents, inlineAll_nil, eventTicks, Duration.add_clamp_zero]
    rfl
  | runtime =>
    simp only [assignShape, assignEvents, inlineAll_ops, eventTicks, Duration.add_clamp_zero] at h ⊢
    exact Walk.run_passed h.head fun _ => rfl
  | measurement =>
    cases value with
    | call callee args duration =>
      simp only [assignShape, assignEvents, inlineAll_ops, eventTicks, Nat.add_zero,
        Duration.clamp_ticks] at h ⊢
      exact Walk.run_timed h.head fun _ => rfl
    | bool _ | int _ | var _ | not _ | compare _ _ _ | binary _ _ _ =>
      simp only [assignShape, assignEvents, inlineAll_ops, eventTicks,
        Duration.add_clamp_zero] at h ⊢
      exact Walk.run_passed h.head fun _ => rfl

/-- A statement and the statements after it. -/
theorem Metered.cons {st : Statement} {rest : List Statement} {first others : List Instruction}
    (hst : Metered b loops returns p (p + first.length) ⟨p, e, returns, frames⟩ (st.meter lane))
    (hrest : ∀ e frames, Metered b loops returns (p + first.length)
      (p + first.length + others.length) ⟨p + first.length, e, returns, frames⟩
      (meterAll lane rest)) :
    Metered b loops returns p (p + (first ++ others).length) ⟨p, e, returns, frames⟩
      (meterAll lane (st :: rest)) := by
  rw [meterAll, List.length_append, ← Nat.add_assoc]
  exact hst.andThen (Nat.le_add_right _ _) (Nat.le_add_right _ _) hrest

/-- A group is metered in its own lane only. -/
theorem Metered.group {loc : Location} {owner : LaneId} {body : List Statement}
    {inner : List Segment}
    (hb : b.Holds p (p + ((Segment.group owner inner).inline lane).length))
    (hstands : Stands b.lane.code p ((Segment.group owner inner).inline lane))
    (hbody : b.Holds p (p + (inlineAll lane inner).length) →
      Stands b.lane.code p (inlineAll lane inner) →
      Metered b loops returns p (p + (inlineAll lane inner).length) ⟨p, e, returns, frames⟩
        (meterAll lane body)) :
    Metered b loops returns p (p + ((Segment.group owner inner).inline lane).length)
      ⟨p, e, returns, frames⟩ ((Statement.group loc owner body).meter lane) := by
  rw [Statement.meter]
  by_cases howner : owner = lane
  · subst howner
    rw [inline_own_group] at hb hstands ⊢
    rw [if_pos rfl]
    exact hbody hb hstands
  · rw [inline_other_group lane howner, if_neg howner]
    refine .done ?_
    rw [Duration.add_clamp_zero]
    rfl

end Statements

/-- A walk through lowered code gives the account of its statements with counts left behind. -/
theorem Lowered.metered {loops : List LoopLabels} {n m : Nat} {body : List Statement}
    {segments : List Segment} (h : Lowered loops n body segments m) (lane : LaneId) {b : Block}
    {p : Nat} (hb : b.Holds p (p + (inlineAll lane segments).length))
    (hstands : Stands b.lane.code p (inlineAll lane segments))
    (returns : List Nat) (e : Duration) (frames : List RepeatFrame) :
    Metered b loops returns p (p + (inlineAll lane segments).length) ⟨p, e, returns, frames⟩
      (meterAll lane body) := by
  -- One case per rule of the lowering. The time and the frames are those of any walk that comes
  -- here, since the statements before may have left loops open.
  induction h generalizing p returns e frames with
  | nil loops n =>
    refine .done ?_
    rw [Duration.add_clamp_zero]
    rfl
  | call loc c purpose _ ih =>
    rw [inlineAll_append] at hb hstands ⊢
    exact .cons (.done hstands.left.run_call) (ih hb.right hstands.right returns)
  | assign loc target value purpose _ ih =>
    rw [inlineAll_append] at hb hstands ⊢
    exact .cons (.done hstands.left.run_assign) (ih hb.right hstands.right returns)
  | @whileDo loops n k m body rest inner others loc test exit hexit _ _ ihbody ihrest =>
    rw [inlineAll_append] at hb hstands ⊢
    refine .cons ?_ (ihrest hb.right hstands.right returns)
    obtain ⟨start, back, hp, hlen⟩ := hstands.left.whileShape
    have hshape := hb.left
    have hstart := hp.body_eq
    have hback := hp.back_eq
    rw [hlen] at hshape ⊢
    rw [Statement.meter, LoopExit.constTruth?_of_ofTest hexit]
    cases exit with
    | never =>
      have hbody := ihbody (hshape.narrow (by omega) (by omega)) hp.innerAt returns e frames
      rw [← hback] at hbody
      exact hp.metered_forever hshape hbody
    | always => exact hp.metered_skipped hshape
    | when test => exact hp.metered_tested
  | ifElse htest _ _ _ ihelse ihbody ihrest =>
    rw [inlineAll_append] at hb hstands ⊢
    refine .cons ?_ (ihrest hb.right hstands.right returns)
    obtain ⟨skip, tail, hp, hlen⟩ := hstands.left.ifShape
    exact Walk.run_gotoIf hp.headAt
  | breakLoop loc _ ih =>
    rw [inlineAll_append, inlineAll_ops] at hb hstands ⊢
    refine .cons ⟨p, [], ?_, .nil, ?_⟩ (ih hb.right hstands.right returns)
    · exact ⟨Nat.le_refl _, Nat.lt_succ_self _, _, _, rfl, hstands.left.head⟩
    · rw [Duration.add_clamp_zero]
      rfl
  | continueLoop loc _ ih =>
    rw [inlineAll_append, inlineAll_ops] at hb hstands ⊢
    refine .cons ⟨p, [], ?_, .nil, ?_⟩ (ih hb.right hstands.right returns)
    · exact ⟨Nat.le_refl _, Nat.lt_succ_self _, _, _, rfl, hstands.left.head⟩
    · rw [Duration.add_clamp_zero]
      rfl
  | repeatTimes loc count _ _ ihbody ihrest =>
    rw [inlineAll_append] at hb hstands ⊢
    refine .cons ?_ (ihrest hb.right hstands.right returns)
    obtain ⟨round, hp, hlen⟩ := hstands.left.repeatShape
    have hshape := hb.left
    have hround := hp.round_eq
    rw [hlen] at hshape ⊢
    have hbody := ihbody (hshape.narrow (by omega) (by omega)) hp.innerAt ((p + 1) :: returns) e
      (⟨count.toNat, p + 3, p + 4, e⟩ :: frames)
    rw [← hround] at hbody
    rw [Statement.meter]
    exact hp.metered hshape hbody
  | sequential loc _ _ ihbody ihrest =>
    rw [inlineAll_append] at hb hstands ⊢
    exact .cons (ihbody hb.left hstands.left returns e frames)
      (ihrest hb.right hstands.right returns)
  | concurrent loc block lanes _ _ ihbody ihrest =>
    rw [inlineAll_cons, inline_concurrent] at hb hstands ⊢
    exact .cons (ihbody hb.left hstands.left returns e frames)
      (ihrest hb.right hstands.right returns)
  | noGroups loc _ ih =>
    rw [meterAll, Statement.meter, meterAll, Meter.nothing_andThen]
    exact ih hb hstands returns e frames
  | groups loc place owner _ _ ihbody ihrest =>
    rw [inlineAll_cons] at hb hstands ⊢
    rw [meterAll_grouped]
    refine .cons ?_ (ihrest hb.right hstands.right returns)
    exact .group hb.left hstands.left fun hb hs => ihbody hb hs returns e frames
  | group loc owner _ _ ihbody ihrest =>
    rw [inlineAll_cons] at hb hstands ⊢
    refine .cons ?_ (ihrest hb.right hstands.right returns)
    exact .group hb.left hstands.left fun hb hs => ihbody hb hs returns e frames

/-! ## Lowered lanes -/

/-- The timing of a lowered lane is what the account with counts left behind amounts to; where that
is stuck there is none. -/
theorem Lowered.timing_eq_ok_iff {n m : Nat} {body : List Statement} {segments : List Segment}
    (h : Lowered [] n body segments m) (lane : LaneId) (t : Timing) :
    (Lane.mk lane (inlineAll lane segments)).timing = .ok t ↔
      (meterAll lane body).timing? = some t := by
  have hfree : ∀ i ∈ inlineAll lane segments, i.isBarrier = false := fun i hi =>
    Instruction.isBarrier_of_isVisible (List.filter_eq_self.1 (h.visible_eq lane) i hi)
  have hblock : (Lane.mk lane (inlineAll lane segments)).block 0 =
      ⟨⟨lane, inlineAll lane segments⟩, 0, (inlineAll lane segments).length, 0⟩ :=
    Lane.block_zero hfree
  have hmetered := h.metered lane
    (b := ⟨⟨lane, inlineAll lane segments⟩, 0, (inlineAll lane segments).length, 0⟩)
    ⟨Nat.le_refl 0, Nat.le_of_eq (Nat.zero_add _), h.labelsApart lane⟩ (.whole _) [] .zero []
  rw [Lane.timing, hblock, Block.timing]
  show Walk.run _ ⟨0, Duration.zero, [], []⟩ = _ ↔ _
  cases hmeter : meterAll lane body with
  | dynamic =>
    rw [hmeter] at hmetered
    rw [show Walk.run _ _ = _ from hmetered]
    simp [Meter.timing?]
  | stuck =>
    rw [hmeter] at hmetered
    obtain ⟨target, hstuck⟩ := hmetered
    rw [hstuck]
    simp [Meter.timing?]
  | done ticks o left =>
    rw [hmeter] at hmetered
    obtain ⟨position, frames, hexit, -, hrun⟩ := hmetered
    have hend : position = (inlineAll lane segments).length := hexit.eq_last.trans (Nat.zero_add _)
    rw [hrun, Walk.run_end (List.getElem?_eq_none (Nat.le_of_eq hend.symm)) hend,
      Duration.zero_add]
    simp [Meter.timing?]

mutual

/-- No concurrent blocks and no groups. -/
def Statement.blockFree : Statement → Bool
  | .call .. | .assign .. | .breakLoop _ | .continueLoop _ => true
  | .whileDo _ _ body => blockFreeAll body
  | .ifElse _ _ body orelse => blockFreeAll body && blockFreeAll orelse
  | .repeatTimes _ _ body => blockFreeAll body
  | .sequential _ body => blockFreeAll body
  | .concurrent .. | .grouped .. | .group .. => false

/-- No concurrent blocks and no groups in a row of statements. -/
def blockFreeAll : List Statement → Bool
  | [] => true
  | st :: rest => st.blockFree && blockFreeAll rest

end

theorem filterMap_op?_ops (code : List Instruction) :
    (Segment.ops code).filterMap Segment.op? = code := by
  rw [Segment.ops, List.filterMap_map]
  exact List.filterMap_some

/-- Without blocks and groups all of the lowered code is plain instructions, which every lane
runs. -/
theorem Lowered.filterMap_op? {loops : List LoopLabels} {n m : Nat} {body : List Statement}
    {segments : List Segment} (h : Lowered loops n body segments m)
    (hfree : blockFreeAll body = true) (lane : LaneId) :
    segments.filterMap Segment.op? = inlineAll lane segments := by
  induction h with
  | nil loops n => rw [inlineAll_nil]; rfl
  | call loc c purpose _ ih =>
    have hrest := (Bool.and_eq_true_iff.1 hfree).2
    rw [List.filterMap_append, inlineAll_append, ih hrest]
    cases purpose with
    | channelCreation => simp only [callShape, inlineAll_nil]; rfl
    | plain | measurement | runtime => simp only [callShape, inlineAll_ops, filterMap_op?_ops]
  | assign loc target value purpose _ ih =>
    have hrest := (Bool.and_eq_true_iff.1 hfree).2
    rw [List.filterMap_append, inlineAll_append, ih hrest]
    cases purpose with
    | plain | channelCreation => simp only [assignShape, inlineAll_nil]; rfl
    | runtime => simp only [assignShape, inlineAll_ops, filterMap_op?_ops]
    | measurement => cases value <;> simp only [assignShape, inlineAll_ops, filterMap_op?_ops]
  | whileDo _ _ _ ihbody ihrest =>
    obtain ⟨hbody, hrest⟩ := Bool.and_eq_true_iff.1 hfree
    simp only [whileShape, List.filterMap_append, inlineAll_append, inlineAll_ops,
      filterMap_op?_ops, ihbody hbody, ihrest hrest]
  | ifElse _ _ _ _ ihelse ihbody ihrest =>
    obtain ⟨hbranches, hrest⟩ := Bool.and_eq_true_iff.1 hfree
    obtain ⟨hbody, helse⟩ := Bool.and_eq_true_iff.1 hbranches
    simp only [ifShape, List.filterMap_append, inlineAll_append, inlineAll_ops,
      filterMap_op?_ops, ihbody hbody, ihelse helse, ihrest hrest]
  | breakLoop loc _ ih =>
    have hrest := (Bool.and_eq_true_iff.1 hfree).2
    rw [List.filterMap_append, inlineAll_append, ih hrest, filterMap_op?_ops, inlineAll_ops]
  | continueLoop loc _ ih =>
    have hrest := (Bool.and_eq_true_iff.1 hfree).2
    rw [List.filterMap_append, inlineAll_append, ih hrest, filterMap_op?_ops, inlineAll_ops]
  | repeatTimes loc count _ _ ihbody ihrest =>
    obtain ⟨hbody, hrest⟩ := Bool.and_eq_true_iff.1 hfree
    simp only [repeatShape, List.filterMap_append, inlineAll_append, inlineAll_ops,
      filterMap_op?_ops, ihbody hbody, ihrest hrest]
  | sequential loc _ _ ihbody ihrest =>
    obtain ⟨hbody, hrest⟩ := Bool.and_eq_true_iff.1 hfree
    rw [List.filterMap_append, inlineAll_append, ihbody hbody, ihrest hrest]
  | concurrent loc block lanes _ _ _ _ => cases hfree
  | noGroups loc _ _ => cases hfree
  | groups loc place owner _ _ _ _ => cases hfree
  | group loc owner _ _ _ _ => cases hfree

/-- The timing of lowered statements is their structured time, if no `break` leaves a counted loop
inside another one. -/
theorem timing_eq_span_of_breaksApart {supply : LabelSupply} {body : List Statement}
    {segments : List Segment} {after : Lowerer}
    (hlower : (Lowerer.new supply).lower body = (.ok segments, after))
    (hfree : blockFreeAll body = true) (lane : LaneId)
    (hbreaks : breaksApartAll lane false false body = true) :
    (Lane.mk lane (segments.filterMap Segment.op?)).timing = .ok (spanAll lane body).timing := by
  have hlowered := (lowered_of_lowerAll body hlower).2
  rw [hlowered.filterMap_op? hfree lane]
  exact (hlowered.timing_eq_ok_iff lane _).2 (timing?_meterAll_of_breaksApart hbreaks)

/-- Counted loops in a counted loop, one of them cut short, and an endless loop left by `break`. -/
def nestedLoops : List Statement :=
  [.repeatTimes .unknown 3
    [.pulse "X" (.clamp 10),
      .repeatTimes .unknown 2
        [.pulse "Y" (.clamp 5), .continueLoop .unknown, .pulse "Z" (.clamp 7)],
      .whileDo .unknown (.bool true) [.pulse "W" (.clamp 1), .breakLoop .unknown]]]

theorem timing_nestedLoops :
    ∃ segments after, (Lowerer.new .fresh).lower nestedLoops = (.ok segments, after) ∧
      blockFreeAll nestedLoops = true ∧ breaksApartAll ⟨0⟩ false false nestedLoops = true ∧
      (Lane.mk ⟨0⟩ (segments.filterMap Segment.op?)).timing = .ok (.fixed (.clamp 63)) := by
  obtain ⟨segments, after, hlower⟩ : ∃ segments after,
      (Lowerer.new .fresh).lower nestedLoops = (.ok segments, after) := ⟨_, _, rfl⟩
  exact ⟨segments, after, hlower, rfl, rfl, timing_eq_span_of_breaksApart hlower rfl ⟨0⟩ rfl⟩

/-! ## Soundness -/

/-- A timing is no error, and if it is known it is the structured time. -/
def SoundTiming (timing : Except TimingError Timing) (s : Span) : Prop :=
  (∀ e, timing ≠ .error e) ∧
    ∀ d, timing = .ok (.fixed d) → ∃ ticks o, s = some (ticks, o) ∧ d = .clamp ticks

/-- A timing that follows an account is sound exactly if the account amounts to the structured
one. -/
theorem soundTiming_iff {timing : Except TimingError Timing} {m : Meter} {s : Span}
    (htiming : ∀ t, timing = .ok t ↔ m.timing? = some t) (hfollows : m.Follows s) :
    SoundTiming timing s ↔ m.timing? = some s.timing := by
  constructor
  · rintro ⟨herror, hfixed⟩
    cases m with
    | dynamic =>
      obtain rfl : s = none := hfollows
      rfl
    | stuck =>
      cases hresult : timing with
      | error e => exact absurd hresult (herror e)
      | ok t => cases (htiming t).1 hresult
    | done ticks o left =>
      obtain ⟨ticks', o', rfl, hclamp⟩ := hfixed (.clamp ticks) ((htiming _).2 rfl)
      simp only [Meter.timing?, Span.timing, hclamp]
  · intro hagree
    have hresult := (htiming _).2 hagree
    refine ⟨fun e he => ?_, fun d hd => ?_⟩
    · rw [hresult] at he
      cases he
    · rw [hresult] at hd
      rcases s with _ | ⟨ticks, o⟩
      · cases hd
      · cases hd
        exact ⟨ticks, o, rfl, rfl⟩

/-- The timing of lowered statements is what the account with counts left behind amounts to, and an
error where that is stuck. So it is sound exactly if that account amounts to the structured one, and
that is so if no `break` leaves a counted loop inside another one. -/
theorem timing_sound_iff_meter {supply : LabelSupply} {body : List Statement}
    {segments : List Segment} {after : Lowerer}
    (hlower : (Lowerer.new supply).lower body = (.ok segments, after))
    (hfree : blockFreeAll body = true) (lane : LaneId) :
    (∀ t, (Lane.mk lane (segments.filterMap Segment.op?)).timing = .ok t ↔
      (meterAll lane body).timing? = some t) ∧
    (SoundTiming (Lane.mk lane (segments.filterMap Segment.op?)).timing (spanAll lane body) ↔
      (meterAll lane body).timing? = some (spanAll lane body).timing) ∧
    (breaksApartAll lane false false body = true →
      SoundTiming (Lane.mk lane (segments.filterMap Segment.op?)).timing (spanAll lane body)) := by
  have hlowered := (lowered_of_lowerAll body hlower).2
  rw [hlowered.filterMap_op? hfree lane]
  have hsound := soundTiming_iff (hlowered.timing_eq_ok_iff lane) (follows_meterAll lane body)
  refine ⟨hlowered.timing_eq_ok_iff lane, hsound, ?_⟩
  intro hbreaks
  exact hsound.2 (timing?_meterAll_of_breaksApart hbreaks)

/-- A count left behind does no harm where every loop is gone through once. -/
theorem timing_sound_of_single_rounds :
    ∃ segments after, (Lowerer.new .fresh).lower (nestedBreak 1 1) = (.ok segments, after) ∧
      blockFreeAll (nestedBreak 1 1) = true ∧
      breaksApartAll ⟨0⟩ false false (nestedBreak 1 1) = false ∧
      SoundTiming (Lane.mk ⟨0⟩ (segments.filterMap Segment.op?)).timing
        (spanAll ⟨0⟩ (nestedBreak 1 1)) := by
  obtain ⟨segments, after, hlower⟩ : ∃ segments after,
      (Lowerer.new .fresh).lower (nestedBreak 1 1) = (.ok segments, after) := ⟨_, _, rfl⟩
  refine ⟨segments, after, hlower, rfl, rfl, ?_⟩
  exact (timing_sound_iff_meter hlower rfl ⟨0⟩).2.1.2 rfl

/-- Two rounds of a loop around one that is left by `break` take 30 ticks. The count left behind
makes it 15 if it is 1, and there is no timing at all if it is 2. -/
theorem leftover_count_spoils_timing :
    ∃ once twice after after',
      (Lowerer.new .fresh).lower (nestedBreak 2 1) = (.ok once, after) ∧
      (Lowerer.new .fresh).lower (nestedBreak 2 2) = (.ok twice, after') ∧
      (spanAll ⟨0⟩ (nestedBreak 2 1)).timing = .fixed (.clamp 30) ∧
      (Lane.mk ⟨0⟩ (once.filterMap Segment.op?)).timing = .ok (.fixed (.clamp 15)) ∧
      (spanAll ⟨0⟩ (nestedBreak 2 2)).timing = .fixed (.clamp 30) ∧
      ∃ e, (Lane.mk ⟨0⟩ (twice.filterMap Segment.op?)).timing = .error e := by
  obtain ⟨once, after, honce⟩ : ∃ segments after,
      (Lowerer.new .fresh).lower (nestedBreak 2 1) = (.ok segments, after) := ⟨_, _, rfl⟩
  obtain ⟨twice, after', htwice⟩ : ∃ segments after,
      (Lowerer.new .fresh).lower (nestedBreak 2 2) = (.ok segments, after) := ⟨_, _, rfl⟩
  have hlowered := (lowered_of_lowerAll (nestedBreak 2 1) honce).2
  have hlowered' := (lowered_of_lowerAll (nestedBreak 2 2) htwice).2
  refine ⟨once, twice, after, after', honce, htwice, rfl, ?_, rfl, ?_⟩
  · rw [hlowered.filterMap_op? rfl ⟨0⟩]
    exact (hlowered.timing_eq_ok_iff ⟨0⟩ _).2 rfl
  · rw [hlowered'.filterMap_op? rfl ⟨0⟩]
    cases hresult : (Lane.mk ⟨0⟩ (inlineAll ⟨0⟩ twice)).timing with
    | error e => exact ⟨e, rfl⟩
    | ok t =>
      have hstuck := (hlowered'.timing_eq_ok_iff ⟨0⟩ t).1 hresult
      cases hstuck

end Lockstep
