import Lockstep.Proofs.Lowered
import Lockstep.Proofs.Machine

/-!
# Lowered code runs as its statements do

The machine goes through lowered code as the statements run in the counted discipline. `Realizes`
relates the two, whatever the statements come to: a run that ends is one of the machine to the place
where its outcome leads (`Outcome.Exit`), and a run that is cut off after some rounds is one of as
many steps of the machine. `Lowered.realizes` is the simulation, by induction on the lowering; loops
are an induction on their rounds. As the machine is deterministic, lowered code completes with
exactly the traces of the counted discipline (`Lowered.completes_iff`).
-/

set_option autoImplicit false

namespace Lockstep

/-! ## Tests -/

/-- Whether a loop is left before its body, after a trace. -/
def LoopExit.leaves (env : Environment) (trace : List Event) : LoopExit → Bool
  | .never => false
  | .always => true
  | .when test => test.holds env trace

theorem Expr.comparison?_of_ok {test : Expr} {loc : Location} {c : Comparison}
    (h : test.comparison loc = .ok c) : test.comparison? = some c := by
  unfold comparison at h
  split at h
  · rename_i c' hc
    cases h
    exact hc
  · cases h

/-- What is a comparison is no constant. -/
theorem Expr.constTruth?_of_comparison? {test : Expr} {c : Comparison}
    (h : test.comparison? = some c) : test.constTruth? = none := by
  cases test with
  | bool value => cases h
  | int value => cases h
  | var name => rfl
  | call callee args duration => rfl
  | not inner => cases inner <;> first | rfl | cases h
  | compare left relation right => rfl
  | binary left op right => rfl

theorem Expr.truth?_of_comparison {test : Expr} {loc : Location} {c : Comparison}
    (h : test.comparison loc = .ok c) (env : Environment) (trace : List Event) :
    test.truth? env trace = some (c.holds env trace) := by
  have hc := comparison?_of_ok h
  rw [truth?, constTruth?_of_comparison? hc, hc]
  rfl

/-- A lowered loop is left before its body exactly if its test does not hold. -/
theorem LoopExit.truth?_of_ofTest {test : Expr} {loc : Location} {exit : LoopExit}
    (h : LoopExit.ofTest test loc = .ok exit) (env : Environment) (trace : List Event) :
    test.truth? env trace = some (!exit.leaves env trace) := by
  unfold ofTest at h
  unfold Expr.truth?
  split at h
  · rename_i hconst
    cases h
    rw [hconst]
    rfl
  · rename_i hconst
    cases h
    rw [hconst]
    rfl
  · rename_i hconst
    cases hc : test.comparison loc with
    | error e =>
      rw [hc] at h
      cases h
    | ok c =>
      rw [hc] at h
      cases h
      rw [hconst, Expr.comparison?_of_ok hc]
      simp [leaves, Comparison.holds_inverse]

/-! ## Where an outcome leads -/

/-- Where statements that stand from `first` up to `last` leave to: to their end, or to a jump in
them to the labels of the innermost loop around them. -/
def Outcome.Exit (code : List Instruction) (loops : List LoopLabels) (first last : Nat)
    (position : Nat) : Outcome → Prop
  | .done => position = last
  | .broke => first ≤ position ∧ position < last ∧
      ∃ labels outer, loops = labels :: outer ∧ code[position]? = some (.goto labels.breakTo)
  | .continued => first ≤ position ∧ position < last ∧
      ∃ labels outer, loops = labels :: outer ∧ code[position]? = some (.goto labels.continueTo)

section Exits

variable {code : List Instruction} {loops : List LoopLabels} {labels : LoopLabels}
  {first first' last last' position : Nat} {o : Outcome}

theorem Outcome.Exit.widen (h : o.Exit code loops first last position) (ho : o ≠ .done)
    (hfirst : first' ≤ first) (hlast : last ≤ last') : o.Exit code loops first' last' position := by
  cases o with
  | done => exact absurd rfl ho
  | broke => exact ⟨by have := h.1; omega, by have := h.2.1; omega, h.2.2⟩
  | continued => exact ⟨by have := h.1; omega, by have := h.2.1; omega, h.2.2⟩

theorem Outcome.Exit.earlier (h : o.Exit code loops first last position) (hfirst : first' ≤ first) :
    o.Exit code loops first' last position := by
  by_cases ho : o = .done
  · subst ho
    exact h
  · exact h.widen ho hfirst (Nat.le_refl _)

theorem Outcome.Exit.goto_break
    (h : Outcome.broke.Exit code (labels :: loops) first last position) :
    code[position]? = some (.goto labels.breakTo) := by
  obtain ⟨-, -, _, _, heq, hgoto⟩ := h
  cases heq
  exact hgoto

theorem Outcome.Exit.goto_continue
    (h : Outcome.continued.Exit code (labels :: loops) first last position) :
    code[position]? = some (.goto labels.continueTo) := by
  obtain ⟨-, -, _, _, heq, hgoto⟩ := h
  cases heq
  exact hgoto

/-- Outside of all loops statements can only come to their end. -/
theorem Outcome.Exit.eq_last (h : o.Exit code [] first last position) : position = last := by
  cases o with
  | done => exact h
  | broke =>
    obtain ⟨-, -, _, _, hloops, -⟩ := h
    cases hloops
  | continued =>
    obtain ⟨-, -, _, _, hloops, -⟩ := h
    cases hloops

end Exits

/-! ## Realized parts -/

/-- The machine at a position, with what a run has come to. -/
def Progress.machine (s : Progress) (position : Nat) (returns : List Nat) : Machine :=
  ⟨position, returns, s.counters, s.trace⟩

/-- A machine does what a part of a run of the statements from `first` up to `last` comes to, or it
runs on for a number of steps. Counters that were open stay open. -/
def Realizes (env : Environment) (code : List Instruction) (loops : List LoopLabels)
    (returns : List Nat) (bound first last : Nat) (m : Machine) :
    Option (Outcome × Progress) → Prop
  | none => RunsFor env code bound m
  | some (o, s) => ∃ position, o.Exit code loops first last position ∧
      Reaches env code m (s.machine position returns) ∧ m.counters.length ≤ s.counters.length

/-- A machine does what the rounds of a loop come to, which ends at `last`, or it runs on for a
number of steps. At least `depth` counters stay open. -/
def RealizesLoop (env : Environment) (code : List Instruction) (returns : List Nat)
    (depth bound last : Nat) (m : Machine) : Option Progress → Prop
  | none => RunsFor env code bound m
  | some s => Reaches env code m (s.machine last returns) ∧ depth ≤ s.counters.length

section Realized

variable {env : Environment} {code : List Instruction} {loops : List LoopLabels}
  {returns : List Nat} {bound first mid last depth : Nat} {m m' : Machine}

theorem Realizes.andThen {r : Option (Outcome × Progress)} {next : Part}
    (h : Realizes env code loops returns bound first mid m r) (hfirst : first ≤ mid)
    (hlast : mid ≤ last)
    (hnext : ∀ s, Realizes env code loops returns bound mid last (s.machine mid returns) (next s)) :
    Realizes env code loops returns bound first last m (andThen r next) := by
  rcases r with _ | ⟨o, s⟩
  · exact h
  · obtain ⟨position, hexit, hreach, hopen⟩ := h
    by_cases ho : o = .done
    · subst ho
      obtain rfl : position = mid := hexit
      rw [andThen_done]
      have hs := hnext s
      cases hresult : next s with
      | none =>
        rw [hresult] at hs
        exact hreach.runsFor hs
      | some result =>
        rw [hresult] at hs
        obtain ⟨position', hexit', hreach', hopen'⟩ := hs
        exact ⟨position', hexit'.earlier hfirst, hreach.trans hreach', Nat.le_trans hopen hopen'⟩
    · rw [andThen_left ho]
      exact ⟨position, hexit.widen ho (Nat.le_refl _) hlast, hreach, hopen⟩

/-- What a machine does before is part of what it does. -/
theorem Realizes.after {r : Option (Outcome × Progress)}
    (h : Realizes env code loops returns bound mid last m' r) (hreach : Reaches env code m m')
    (hopen : m.counters.length ≤ m'.counters.length) (hfirst : first ≤ mid) :
    Realizes env code loops returns bound first last m r := by
  rcases r with _ | ⟨o, s⟩
  · exact hreach.runsFor h
  · obtain ⟨position, hexit, hreach', hopen'⟩ := h
    exact ⟨position, hexit.earlier hfirst, hreach.trans hreach', Nat.le_trans hopen hopen'⟩

/-- What a machine does after a part that is done is part of what it does. -/
theorem Realizes.extend {r : Option (Outcome × Progress)}
    (h : Realizes env code loops returns bound first mid m r) (hlast : mid ≤ last)
    (hreach : ∀ s : Progress, Reaches env code (s.machine mid returns) (s.machine last returns)) :
    Realizes env code loops returns bound first last m r := by
  rcases r with _ | ⟨o, s⟩
  · exact h
  · obtain ⟨position, hexit, hreach', hopen⟩ := h
    by_cases ho : o = .done
    · subst ho
      obtain rfl : position = mid := hexit
      exact ⟨last, rfl, hreach'.trans (hreach s), hopen⟩
    · exact ⟨position, hexit.widen ho (Nat.le_refl _) hlast, hreach', hopen⟩

/-- A part that is done is realized by a run to its end. -/
theorem Realizes.done {s : Progress} (hreach : Reaches env code m (s.machine last returns))
    (hopen : m.counters.length ≤ s.counters.length) :
    Realizes env code loops returns bound first last m (some (.done, s)) :=
  ⟨last, rfl, hreach, hopen⟩

theorem RealizesLoop.realizes {r : Option Progress}
    (h : RealizesLoop env code returns m.counters.length bound last m r) :
    Realizes env code loops returns bound first last m (r.map (.done, ·)) := by
  cases r with
  | none => exact h
  | some s => exact .done h.1 h.2

theorem RealizesLoop.after {r : Option Progress} (hreach : Reaches env code m m')
    (h : RealizesLoop env code returns depth bound last m' r) :
    RealizesLoop env code returns depth bound last m r := by
  cases r with
  | none => exact hreach.runsFor h
  | some s => exact ⟨hreach.trans h.1, h.2⟩

/-- A round of a loop takes a step at least. -/
theorem RealizesLoop.after_round {r : Option Progress} {m₁ : Machine}
    (hstep : m.step env code = some m₁) (hreach : Reaches env code m₁ m')
    (h : RealizesLoop env code returns depth bound last m' r) :
    RealizesLoop env code returns depth (bound + 1) last m r := by
  cases r with
  | none => exact .step hstep (hreach.runsFor h)
  | some s => exact ⟨((Reaches.one hstep).trans hreach).trans h.1, h.2⟩

end Realized

/-! ## Steps at control flow -/

section Steps

variable (env : Environment) {code : List Instruction} (returns : List Nat) (s : Progress)
  {l : Label} {p q : Nat}

theorem step_label (h : LabelAt code l p) :
    (s.machine p returns).step env code = some (s.machine (p + 1) returns) := by
  have hget : code[(s.machine p returns).position]? = some (.label l) := h
  rw [Machine.step_of_getElem? hget]
  rfl

theorem reaches_label (h : LabelAt code l p) :
    Reaches env code (s.machine p returns) (s.machine (p + 1) returns) :=
  .one (step_label env returns s h)

theorem reaches_goto (hcode : LabelsApart code) (h : code[p]? = some (.goto l))
    (hl : LabelAt code l q) : Reaches env code (s.machine p returns) (s.machine q returns) := by
  have hget : code[(s.machine p returns).position]? = some (.goto l) := h
  refine .one ?_
  rw [Machine.step_of_getElem? hget, Machine.perform, labelPosition?_eq hcode hl]
  rfl

theorem reaches_gotoIf (hcode : LabelsApart code) {test : Comparison}
    (h : code[p]? = some (.gotoIf test l)) (hl : LabelAt code l q) :
    Reaches env code (s.machine p returns)
      (s.machine (if test.holds env s.trace then q else p + 1) returns) := by
  have hget : code[(s.machine p returns).position]? = some (.gotoIf test l) := h
  have htrace : (s.machine p returns).trace = s.trace := rfl
  refine .one ?_
  rw [Machine.step_of_getElem? hget, Machine.perform, labelPosition?_eq hcode hl, htrace]
  by_cases htest : test.holds env s.trace
  · rw [if_pos htest, if_pos htest]
    rfl
  · rw [if_neg htest, if_neg htest]
    rfl

end Steps

/-! ## Loops -/

section Loops

variable {env : Environment} {code : List Instruction} {loops : List LoopLabels}
  {returns : List Nat} {n p bound depth : Nat} {part : Part}

section While

variable {exit : LoopExit} {inner : List Instruction} {body back : Nat}

/-- The test of a loop leads to the body or past the loop. -/
theorem WhilePlaced.reaches_test (hp : WhilePlaced code n exit inner p body back)
    (hcode : LabelsApart code) (env : Environment) (returns : List Nat) (s : Progress) :
    Reaches env code (s.machine (p + 1) returns)
      (s.machine (if exit.leaves env s.trace then back + 1 else body) returns) := by
  have hexit := hp.exitAt
  have hbody := hp.body_eq
  cases exit with
  | never =>
    obtain rfl : body = p + 1 := hbody
    exact .refl _
  | always => exact reaches_goto env returns s hcode hexit.head hp.tailAt
  | when test =>
    obtain rfl : body = p + 1 + 1 := hbody
    exact reaches_gotoIf env returns s hcode hexit.head hp.tailAt

/-- The rounds of a loop with a test. The label at the head is a step, so that a run with no result
within `k` rounds goes on for `k` steps. -/
theorem WhilePlaced.realizes (hp : WhilePlaced code n exit inner p body back)
    (hcode : LabelsApart code) {test : List Event → Option Bool}
    (htest : ∀ trace, test trace = some (!exit.leaves env trace))
    (hpart : ∀ s : Progress, Realizes env code (whileLabels n :: loops) returns bound body back
      (s.machine body returns) (part s))
    {k : Nat} (hk : k ≤ bound) {s : Progress} (hopen : depth ≤ s.counters.length) :
    RealizesLoop env code returns depth k (back + 2) (s.machine p returns)
      (whileRounds test part k s) := by
  induction k generalizing s with
  | zero => exact .zero _
  | succ k ih =>
    have hhead := step_label env returns s hp.headAt
    have hreach := hp.reaches_test hcode env returns s
    rw [whileRounds, htest]
    cases hleave : exit.leaves env s.trace with
    | true =>
      rw [hleave, if_pos rfl] at hreach
      have hend := reaches_label env returns s hp.tailAt
      exact ⟨((Reaches.one hhead).trans hreach).trans hend, hopen⟩
    | false =>
      rw [hleave, if_neg Bool.false_ne_true] at hreach
      have hs := hpart s
      rcases hround : part s with _ | ⟨o, s₁⟩
      · rw [hround] at hs
        exact ((Reaches.one hhead).trans hreach).runsFor (RunsFor.of_le hs hk)
      · rw [hround] at hs
        obtain ⟨position, hexit, hrun, hle⟩ := hs
        have hopen₁ : depth ≤ s₁.counters.length := Nat.le_trans hopen hle
        by_cases ho : o = .broke
        · subst ho
          have hend := (reaches_goto env returns s₁ hcode hexit.goto_break hp.tailAt).trans
            (reaches_label env returns s₁ hp.tailAt)
          exact ⟨(((Reaches.one hhead).trans hreach).trans hrun).trans hend, hopen₁⟩
        · have hback : Reaches env code (s₁.machine position returns) (s₁.machine p returns) := by
            cases o with
            | done =>
              obtain rfl : position = back := hexit
              exact reaches_goto env returns s₁ hcode hp.backAt hp.headAt
            | broke => exact absurd rfl ho
            | continued => exact reaches_goto env returns s₁ hcode hexit.goto_continue hp.headAt
          show RealizesLoop _ _ _ _ _ _ _ (afterRound (some (o, s₁)) _)
          rw [afterRound_next ho]
          exact .after_round hhead ((hreach.trans hrun).trans hback) (ih (by omega) hopen₁)

end While

section Repeat

variable {count : UInt32} {inner : List Instruction} {round : Nat}

/-- A counted loop is entered with a new counter. -/
theorem RepeatPlaced.reaches_head (hp : RepeatPlaced code n count inner p round)
    (hcode : LabelsApart code) (env : Environment) (returns : List Nat) (s : Progress) :
    Reaches env code (s.machine p returns)
      (Progress.machine { s with counters := count.toNat :: s.counters } (p + 4)
        ((p + 1) :: returns)) := by
  have henter : (s.machine p returns).step env code =
      some (s.machine (p + 2) ((p + 1) :: returns)) := by
    have hget : code[(s.machine p returns).position]? = some (.call (.indexed "rstart" n)) :=
      hp.enterAt
    rw [Machine.step_of_getElem? hget, Machine.perform, labelPosition?_eq hcode hp.startAt]
    rfl
  have hload : (s.machine (p + 3) ((p + 1) :: returns)).step env code =
      some (Progress.machine { s with counters := count.toNat :: s.counters } (p + 4)
        ((p + 1) :: returns)) := by
    have hget : code[(s.machine (p + 3) ((p + 1) :: returns)).position]? =
        some (.loadRepeat count) := hp.loadAt
    rw [Machine.step_of_getElem? hget]
    rfl
  exact ((Reaches.one henter).trans (reaches_label env _ s hp.startAt)).trans (.one hload)

/-- A counted loop is left by way of its return. -/
theorem RepeatPlaced.reaches_tail (hp : RepeatPlaced code n count inner p round)
    (hcode : LabelsApart code) (env : Environment) (returns : List Nat) (s : Progress) :
    Reaches env code (s.machine (round + 2) ((p + 1) :: returns))
      (s.machine (round + 5) returns) := by
  have hback : (s.machine (round + 3) ((p + 1) :: returns)).step env code =
      some (s.machine (p + 1) returns) := by
    have hget : code[(s.machine (round + 3) ((p + 1) :: returns)).position]? = some .ret :=
      hp.backAt
    rw [Machine.step_of_getElem? hget]
    rfl
  have hleave := reaches_goto env returns s hcode hp.leaveAt hp.tailAt
  exact (((reaches_label env _ s hp.exitAt).trans (.one hback)).trans hleave).trans
    (reaches_label env returns s hp.tailAt)

/-- The end of a round counts the innermost counter down. -/
theorem RepeatPlaced.reaches_again (hp : RepeatPlaced code n count inner p round)
    (hcode : LabelsApart code) (env : Environment) (returns : List Nat) (trace : List Event)
    (c : Nat) (counters : List Nat) :
    Reaches env code (Progress.machine ⟨trace, c :: counters⟩ (round + 1) returns)
      (if c ≤ 1 then Progress.machine ⟨trace, counters⟩ (round + 2) returns
        else Progress.machine ⟨trace, (c - 1) :: counters⟩ (p + 4) returns) := by
  have hget : code[(Progress.machine ⟨trace, c :: counters⟩ (round + 1) returns).position]? =
      some (.repeatFrom (.indexed "rloop" n)) := hp.againAt
  refine .one ?_
  rw [Machine.step_of_getElem? hget, Machine.perform, labelPosition?_eq hcode hp.headAt]
  by_cases hc : c ≤ 1
  · simp only [Progress.machine, if_pos hc]
    rfl
  · simp only [Progress.machine, if_neg hc]
    rfl

/-- The rounds of a counted loop. -/
theorem RepeatPlaced.realizes_rounds (hp : RepeatPlaced code n count inner p round)
    (hcode : LabelsApart code)
    (hpart : ∀ s : Progress, Realizes env code (repeatLabels n :: loops) ((p + 1) :: returns) bound
      (p + 5) round (s.machine (p + 5) ((p + 1) :: returns)) (part s))
    {k : Nat} (hk : k ≤ bound) {s : Progress} (hopen : depth < s.counters.length) :
    RealizesLoop env code returns depth k (round + 5) (s.machine (p + 4) ((p + 1) :: returns))
      (counterRounds part k s) := by
  induction k generalizing s with
  | zero => exact .zero _
  | succ k ih =>
    have hhead := step_label env ((p + 1) :: returns) s hp.headAt
    have hs := hpart s
    rw [counterRounds]
    rcases hround : part s with _ | ⟨o, s₁⟩
    · rw [hround] at hs
      exact (Reaches.one hhead).runsFor (RunsFor.of_le hs hk)
    · rw [hround] at hs
      obtain ⟨position, hexit, hrun, hle⟩ := hs
      have hopen₁ : depth < s₁.counters.length := Nat.lt_of_lt_of_le hopen hle
      by_cases ho : o = .broke
      · subst ho
        -- `break` jumps past the end of the round, so the counter is not counted down.
        have hend := (reaches_goto env ((p + 1) :: returns) s₁ hcode hexit.goto_break
          hp.exitAt).trans (hp.reaches_tail hcode env returns s₁)
        exact ⟨((Reaches.one hhead).trans hrun).trans hend, Nat.le_of_lt hopen₁⟩
      · have hagain : Reaches env code (s₁.machine position ((p + 1) :: returns))
            (s₁.machine (round + 1) ((p + 1) :: returns)) := by
          cases o with
          | done =>
            obtain rfl : position = round := hexit
            exact reaches_label env _ s₁ hp.roundAt
          | broke => exact absurd rfl ho
          | continued =>
            exact (reaches_goto env _ s₁ hcode hexit.goto_continue hp.roundAt).trans
              (reaches_label env _ s₁ hp.roundAt)
        rw [afterRound_next ho]
        -- The loop's own counter may be buried, but some counter is there to count down.
        obtain ⟨trace, _ | ⟨c, counters⟩⟩ := s₁
        · cases hopen₁
        · have hcount := hp.reaches_again hcode env ((p + 1) :: returns) trace c counters
          by_cases hc : c ≤ 1
          · rw [if_pos hc] at hcount
            rw [countDown_last hc]
            have hend := hcount.trans (hp.reaches_tail hcode env returns ⟨trace, counters⟩)
            exact ⟨(((Reaches.one hhead).trans hrun).trans hagain).trans hend,
              Nat.le_of_lt_succ hopen₁⟩
          · rw [if_neg hc] at hcount
            rw [countDown_again hc]
            exact .after_round hhead ((hrun.trans hagain).trans hcount) (ih (by omega) hopen₁)

/-- A counted loop. -/
theorem RepeatPlaced.realizes (hp : RepeatPlaced code n count inner p round)
    (hcode : LabelsApart code)
    (hpart : ∀ s : Progress, Realizes env code (repeatLabels n :: loops) ((p + 1) :: returns) bound
      (p + 5) round (s.machine (p + 5) ((p + 1) :: returns)) (part s)) (s : Progress) :
    RealizesLoop env code returns s.counters.length bound (round + 5) (s.machine p returns)
      (counted bound count.toNat part s) :=
  .after (hp.reaches_head hcode env returns s)
    (hp.realizes_rounds hcode hpart (Nat.le_refl _) (Nat.lt_succ_self _))

end Repeat

end Loops

/-! ## Statements -/

section Statements

variable {env : Environment} {code : List Instruction} {loops : List LoopLabels} {lane : LaneId}
  {returns : List Nat} {fuel p : Nat} {s : Progress}

theorem reaches_emit {i : Instruction} {e : Event} (h : code[p]? = some i)
    (hi : ∀ m : Machine, m.perform env code i = some (m.emit e)) :
    Reaches env code (s.machine p returns)
      (Progress.machine { s with trace := s.trace ++ [e] } (p + 1) returns) := by
  have hget : code[(s.machine p returns).position]? = some i := h
  refine .one ?_
  rw [Machine.step_of_getElem? hget, hi]
  rfl

/-- What is left of a call does what the call does. -/
theorem Stands.reaches_call {c : Call} {purpose : Purpose}
    (h : Stands code p (inlineAll lane (callShape c purpose))) :
    Reaches env code (s.machine p returns)
      (Progress.machine { s with trace := s.trace ++ callEvents c purpose }
        (p + (inlineAll lane (callShape c purpose)).length) returns) := by
  cases purpose with
  | channelCreation =>
    simp only [callShape, callEvents, inlineAll_nil, List.append_nil]
    exact .refl _
  | plain | measurement | runtime =>
    simp only [callShape, inlineAll_ops] at h ⊢
    exact reaches_emit h.head (fun _ => rfl)

/-- What is left of an assignment does what the assignment does. -/
theorem Stands.reaches_assign {target : String} {value : Expr} {purpose : Purpose}
    (h : Stands code p (inlineAll lane (assignShape target value purpose))) :
    Reaches env code (s.machine p returns)
      (Progress.machine { s with trace := s.trace ++ assignEvents target value purpose }
        (p + (inlineAll lane (assignShape target value purpose)).length) returns) := by
  cases purpose with
  | plain | channelCreation =>
    simp only [assignShape, assignEvents, inlineAll_nil, List.append_nil]
    exact .refl _
  | runtime =>
    simp only [assignShape, inlineAll_ops] at h ⊢
    exact reaches_emit h.head (fun _ => rfl)
  | measurement =>
    cases value <;> simp only [assignShape, inlineAll_ops] at h ⊢ <;>
      exact reaches_emit h.head (fun _ => rfl)

/-- A statement and the statements after it. -/
theorem Realizes.cons {st : Statement} {rest : List Statement} {first others : List Instruction}
    (hst : Realizes env code loops returns fuel p (p + first.length) (s.machine p returns)
      (st.exec counted env lane fuel s))
    (hrest : ∀ s : Progress, Realizes env code loops returns fuel (p + first.length)
      (p + first.length + others.length) (s.machine (p + first.length) returns)
      (execAll counted env lane fuel rest s)) :
    Realizes env code loops returns fuel p (p + (first ++ others).length) (s.machine p returns)
      (execAll counted env lane fuel (st :: rest) s) := by
  rw [execAll, List.length_append, ← Nat.add_assoc]
  exact hst.andThen (Nat.le_add_right _ _) (Nat.le_add_right _ _) hrest

/-- A choice is what its branches are. -/
theorem IfPlaced.realizes {n skip tail : Nat} {loc : Location} {test : Expr} {c : Comparison}
    {inner otherwise : List Instruction} {body orelse : List Statement}
    (hp : IfPlaced code n c inner otherwise p skip tail) (hcode : LabelsApart code)
    (htest : test.comparison loc = .ok c)
    (hthen : Realizes env code loops returns fuel (skip + 2) tail (s.machine (skip + 2) returns)
      (execAll counted env lane fuel body s))
    (helse : Realizes env code loops returns fuel (p + 1) skip (s.machine (p + 1) returns)
      (execAll counted env lane fuel orelse s)) :
    Realizes env code loops returns fuel p (tail + 1) (s.machine p returns)
      ((Statement.ifElse loc test body orelse).exec counted env lane fuel s) := by
  have hskip := hp.skip_eq
  have htail := hp.tail_eq
  have hbranch := reaches_gotoIf env returns s hcode hp.headAt hp.middleAt
  have hend := fun s : Progress => reaches_label env returns s hp.tailAt
  rw [Statement.exec, Expr.truth?_of_comparison htest]
  cases hc : c.holds env s.trace with
  | true =>
    rw [hc, if_pos rfl] at hbranch
    have hin := hbranch.trans (reaches_label env returns s hp.middleAt)
    exact (hthen.after hin (Nat.le_refl _) (by omega)).extend (by omega) hend
  | false =>
    rw [hc, if_neg Bool.false_ne_true] at hbranch
    have hout := fun s : Progress =>
      (reaches_goto env returns s hcode hp.skipAt hp.tailAt).trans (hend s)
    exact (helse.after hbranch (Nat.le_refl _) (by omega)).extend (by omega) hout

/-- A group is run by its own lane only. -/
theorem Realizes.group {loc : Location} {owner : LaneId} {body : List Statement}
    {inner : List Segment} (hstands : Stands code p ((Segment.group owner inner).inline lane))
    (hbody : Stands code p (inlineAll lane inner) →
      Realizes env code loops returns fuel p (p + (inlineAll lane inner).length)
        (s.machine p returns) (execAll counted env lane fuel body s)) :
    Realizes env code loops returns fuel p (p + ((Segment.group owner inner).inline lane).length)
      (s.machine p returns) ((Statement.group loc owner body).exec counted env lane fuel s) := by
  rw [Statement.exec]
  by_cases howner : owner = lane
  · subst howner
    rw [inline_own_group] at hstands ⊢
    rw [if_pos rfl]
    exact hbody hstands
  · rw [inline_other_group lane howner, if_neg howner]
    exact .done (.refl _) (Nat.le_refl _)

end Statements

/-- Lowered code does what its statements do in the counted discipline. -/
theorem Lowered.realizes {loops : List LoopLabels} {n m : Nat} {body : List Statement}
    {segments : List Segment} (h : Lowered loops n body segments m) (env : Environment)
    (lane : LaneId) (fuel : Nat) {code : List Instruction} (hcode : LabelsApart code) {p : Nat}
    (hstands : Stands code p (inlineAll lane segments)) (returns : List Nat) (s : Progress) :
    Realizes env code loops returns fuel p (p + (inlineAll lane segments).length)
      (s.machine p returns) (execAll counted env lane fuel body s) := by
  -- Returns are generalized, since a counted loop runs its body with one more of them.
  induction h generalizing p returns s with
  | nil loops n => exact .done (.refl _) (Nat.le_refl _)
  | call loc c purpose _ ih =>
    rw [inlineAll_append] at hstands ⊢
    refine .cons ?_ (ih hstands.right returns)
    exact .done hstands.left.reaches_call (Nat.le_refl _)
  | assign loc target value purpose _ ih =>
    rw [inlineAll_append] at hstands ⊢
    refine .cons ?_ (ih hstands.right returns)
    exact .done hstands.left.reaches_assign (Nat.le_refl _)
  | whileDo hexit _ _ ihbody ihrest =>
    rw [inlineAll_append] at hstands ⊢
    refine .cons ?_ (ihrest hstands.right returns)
    obtain ⟨start, back, hp, hlen⟩ := hstands.left.whileShape
    rw [hlen, Statement.exec]
    have hbody := fun s => ihbody hp.innerAt returns s
    simp only [← hp.back_eq] at hbody
    exact (hp.realizes hcode (LoopExit.truth?_of_ofTest hexit env) hbody (Nat.le_refl _)
      (Nat.le_refl _)).realizes
  | ifElse htest _ _ _ ihelse ihbody ihrest =>
    rw [inlineAll_append] at hstands ⊢
    refine .cons ?_ (ihrest hstands.right returns)
    obtain ⟨skip, tail, hp, hlen⟩ := hstands.left.ifShape
    rw [hlen]
    refine hp.realizes hcode htest ?_ ?_
    · rw [hp.tail_eq]
      exact ihbody hp.innerAt returns s
    · rw [hp.skip_eq]
      exact ihelse hp.otherwiseAt returns s
  | breakLoop loc _ ih =>
    rw [inlineAll_append, inlineAll_ops] at hstands ⊢
    refine .cons ?_ (ih hstands.right returns)
    exact ⟨p, ⟨Nat.le_refl _, Nat.lt_succ_self _, _, _, rfl, hstands.left.head⟩, .refl _,
      Nat.le_refl _⟩
  | continueLoop loc _ ih =>
    rw [inlineAll_append, inlineAll_ops] at hstands ⊢
    refine .cons ?_ (ih hstands.right returns)
    exact ⟨p, ⟨Nat.le_refl _, Nat.lt_succ_self _, _, _, rfl, hstands.left.head⟩, .refl _,
      Nat.le_refl _⟩
  | repeatTimes loc count _ _ ihbody ihrest =>
    rw [inlineAll_append] at hstands ⊢
    refine .cons ?_ (ihrest hstands.right returns)
    obtain ⟨round, hp, hlen⟩ := hstands.left.repeatShape
    rw [hlen, Statement.exec]
    have hbody := fun s => ihbody hp.innerAt ((p + 1) :: returns) s
    simp only [← hp.round_eq] at hbody
    exact (hp.realizes hcode hbody s).realizes
  | sequential loc _ _ ihbody ihrest =>
    rw [inlineAll_append] at hstands ⊢
    exact .cons (ihbody hstands.left returns s) (ihrest hstands.right returns)
  | concurrent loc block lanes _ _ ihbody ihrest =>
    rw [inlineAll_cons, inline_concurrent] at hstands ⊢
    exact .cons (ihbody hstands.left returns s) (ihrest hstands.right returns)
  | noGroups loc _ ih => exact ih hstands returns s
  | groups loc place owner _ _ ihbody ihrest =>
    rw [inlineAll_cons] at hstands ⊢
    rw [execAll_grouped]
    refine .cons ?_ (ihrest hstands.right returns)
    exact .group hstands.left fun hs => ihbody hs returns s
  | group loc owner _ _ ihbody ihrest =>
    rw [inlineAll_cons] at hstands ⊢
    refine .cons ?_ (ihrest hstands.right returns)
    exact .group hstands.left fun hs => ihbody hs returns s

/-- Lowered code completes with exactly the traces that its statements have in the counted
discipline. -/
theorem Lowered.completes_iff {n m : Nat} {body : List Statement} {segments : List Segment}
    (h : Lowered [] n body segments m) (env : Environment) (lane : LaneId) (trace : List Event) :
    Completes env (inlineAll lane segments) trace ↔ RunsTo counted env lane body trace := by
  have hcode := h.labelsApart lane
  have hrun := fun fuel => h.realizes env lane fuel hcode (.whole _) [] ⟨[], []⟩
  simp only [Nat.zero_add] at hrun
  constructor
  · rintro ⟨returns, counters, steps, hsteps⟩
    have hend : Machine.step env (inlineAll lane segments)
        ⟨(inlineAll lane segments).length, returns, counters, trace⟩ = none :=
      Machine.step_end (Nat.le_refl _)
    have hfuel := hrun (steps + 1)
    rcases hexec : execAll counted env lane (steps + 1) body ⟨[], []⟩ with _ | ⟨o, s⟩
    · rw [hexec] at hfuel
      exact absurd hfuel (Reaches.not_runsFor hsteps hend)
    · rw [hexec] at hfuel
      obtain ⟨position, hexit, hreach, -⟩ := hfuel
      cases o with
      | done =>
        obtain rfl : position = (inlineAll lane segments).length := hexit
        have heq := hreach.unique ⟨steps, hsteps⟩ (Machine.step_end (Nat.le_refl _)) hend
        have htrace : s.trace = trace := congrArg Machine.trace heq
        exact ⟨steps + 1, s.counters, by rw [hexec, ← htrace]⟩
      | broke | continued =>
        -- There is no loop around the whole that could be left.
        obtain ⟨-, -, _, _, hloops, -⟩ := hexit
        cases hloops
  · rintro ⟨fuel, counters, hexec⟩
    have hfuel := hrun fuel
    rw [hexec] at hfuel
    obtain ⟨position, hexit, hreach, -⟩ := hfuel
    obtain rfl : position = (inlineAll lane segments).length := hexit
    exact ⟨[], counters, hreach⟩

end Lockstep
