import Lockstep.Proofs.Execution
import Lockstep.Proofs.Layout

/-!
# The instruction machine

How the code of a lane runs. The machine keeps a stack of positions to return to and a stack of loop
counters; jumps go to the position of their label. `Completes env code trace` says that the machine
comes to the end of the code with a trace.

Delays and the points at which lanes meet take time and nothing else, so a machine does with some
code what it does with the visible part of it (`completes_iff_visible`).
-/

set_option autoImplicit false

namespace Lockstep

/-- The state of the machine that runs a lane. -/
structure Machine where
  /-- The position of the next instruction. -/
  position : Nat
  /-- The positions to return to, innermost first. -/
  returns : List Nat
  /-- The loop counters, innermost first. -/
  counters : List Nat
  /-- What was done so far. -/
  trace : List Event
deriving DecidableEq

namespace Machine

/-- The machine at the start of a lane. -/
def start : Machine := ⟨0, [], [], []⟩

/-- The machine at the next position. -/
def advance (m : Machine) : Machine := { m with position := m.position + 1 }

/-- The machine at another position. -/
def jump (m : Machine) (position : Nat) : Machine := { m with position }

/-- Do something, and go on. -/
def emit (m : Machine) (e : Event) : Machine := { m.advance with trace := m.trace ++ [e] }

/-- Perform an instruction. There is no next state if a jump has no target, or if there is nothing
to return to or to count. -/
def perform (env : Environment) (code : List Instruction) (m : Machine) :
    Instruction → Option Machine
  | .pulse name duration => some (m.emit (.pulse name duration))
  | .store dest source => some (m.emit (.store dest source))
  | .goto target => (labelPosition? code target).map m.jump
  | .gotoIf test target =>
    if test.holds env m.trace then (labelPosition? code target).map m.jump else some m.advance
  | .call target =>
    (labelPosition? code target).map fun p =>
      { m with position := p, returns := (m.position + 1) :: m.returns }
  | .ret =>
    match m.returns with
    | [] => none
    | p :: returns => some { m with position := p, returns }
  | .loadRepeat count => some { m.advance with counters := count.toNat :: m.counters }
  | .repeatFrom target =>
    match m.counters with
    | [] => none
    | c :: counters =>
      if c ≤ 1 then some { m.advance with counters }
      else (labelPosition? code target).map fun p =>
        { m with position := p, counters := (c - 1) :: counters }
  | .delay _ | .label _ | .barrier _ _ | .sync | .wait | .compare _ | .loadCompare => some m.advance

/-- One step; there is none at the end of the code. -/
def step (env : Environment) (code : List Instruction) (m : Machine) : Option Machine :=
  match code[m.position]? with
  | none => none
  | some i => m.perform env code i

/-- A number of steps in a row. -/
def steps (env : Environment) (code : List Instruction) : Nat → Machine → Option Machine
  | 0, m => some m
  | n + 1, m => (m.step env code).bind (steps env code n)

end Machine

/-- One state of the machine leads to another. -/
def Reaches (env : Environment) (code : List Instruction) (m m' : Machine) : Prop :=
  ∃ n, m.steps env code n = some m'

/-- The machine runs for a number of steps at least. -/
def RunsFor (env : Environment) (code : List Instruction) (n : Nat) (m : Machine) : Prop :=
  ∃ m', m.steps env code n = some m'

/-- The machine comes to the end of the code, with a trace. -/
def Completes (env : Environment) (code : List Instruction) (trace : List Event) : Prop :=
  ∃ returns counters, Reaches env code .start ⟨code.length, returns, counters, trace⟩

section Runs

variable {env : Environment} {code : List Instruction} {m m' m'' : Machine} {i : Instruction}
  {n k : Nat}

theorem Machine.step_of_getElem? (h : code[m.position]? = some i) :
    m.step env code = m.perform env code i := by
  unfold step
  rw [h]

/-- There is no step past the end of the code. -/
theorem Machine.step_end (h : code.length ≤ m.position) : m.step env code = none := by
  unfold step
  rw [List.getElem?_eq_none h]

/-- Steps can be counted in two parts. -/
theorem Machine.steps_add (m : Machine) (n k : Nat) :
    m.steps env code (n + k) = (m.steps env code n).bind (steps env code k) := by
  induction n generalizing m with
  | zero => simp [steps]
  | succ n ih =>
    rw [Nat.succ_add, steps, steps, Option.bind_assoc]
    exact Option.bind_congr fun m₁ _ => ih m₁

theorem Reaches.refl (m : Machine) : Reaches env code m m := ⟨0, rfl⟩

theorem Reaches.trans (h : Reaches env code m m') (h' : Reaches env code m' m'') :
    Reaches env code m m'' := by
  obtain ⟨n, hn⟩ := h
  obtain ⟨k, hk⟩ := h'
  exact ⟨n + k, by rw [Machine.steps_add, hn]; exact hk⟩

theorem Reaches.one (h : m.step env code = some m') : Reaches env code m m' :=
  ⟨1, by simp [Machine.steps, h]⟩

theorem RunsFor.zero (m : Machine) : RunsFor env code 0 m := ⟨m, rfl⟩

/-- A step may be put before a run. -/
theorem RunsFor.step (h : m.step env code = some m') (h' : RunsFor env code n m') :
    RunsFor env code (n + 1) m := by
  obtain ⟨last, hlast⟩ := h'
  exact ⟨last, by simp [Machine.steps, h, hlast]⟩

/-- A machine that runs for a number of steps runs for fewer. -/
theorem RunsFor.of_le (h : RunsFor env code n m) (hle : k ≤ n) : RunsFor env code k m := by
  obtain ⟨last, hlast⟩ := h
  rw [show n = k + (n - k) by omega, Machine.steps_add] at hlast
  obtain ⟨mid, hmid, -⟩ := Option.bind_eq_some_iff.1 hlast
  exact ⟨mid, hmid⟩

/-- A machine runs for as long as any that it reaches. -/
theorem Reaches.runsFor (h : Reaches env code m m') (h' : RunsFor env code n m') :
    RunsFor env code n m := by
  obtain ⟨k, hk⟩ := h
  obtain ⟨last, hlast⟩ := h'
  have hrun : RunsFor env code (k + n) m := ⟨last, by rw [Machine.steps_add, hk]; exact hlast⟩
  exact hrun.of_le (by omega)

/-- A machine that stops does not run on. -/
theorem Reaches.not_runsFor (h : m.steps env code n = some m') (hend : m'.step env code = none) :
    ¬ RunsFor env code (n + 1) m := by
  rintro ⟨last, hlast⟩
  rw [Machine.steps_add, h] at hlast
  simp [Machine.steps, hend] at hlast

/-- A machine stops in one state. -/
theorem Reaches.unique (h : Reaches env code m m') (h' : Reaches env code m m'')
    (hend : m'.step env code = none) (hend' : m''.step env code = none) : m' = m'' := by
  obtain ⟨n, hn⟩ := h
  obtain ⟨k, hk⟩ := h'
  rcases Nat.lt_trichotomy n k with hlt | rfl | hlt
  · have hrun : RunsFor env code (n + 1) m := RunsFor.of_le ⟨m'', hk⟩ hlt
    exact absurd hrun (Reaches.not_runsFor hn hend)
  · exact Option.some.inj (hn.symm.trans hk)
  · have hrun : RunsFor env code (k + 1) m := RunsFor.of_le ⟨m', hn⟩ hlt
    exact absurd hrun (Reaches.not_runsFor hk hend')

/-- A machine comes to the end of its code with one trace. -/
theorem Completes.unique {trace trace' : List Event} (h : Completes env code trace)
    (h' : Completes env code trace') : trace = trace' := by
  obtain ⟨returns, counters, hreach⟩ := h
  obtain ⟨returns', counters', hreach'⟩ := h'
  exact congrArg Machine.trace (hreach.unique hreach' (Machine.step_end (Nat.le_refl _))
    (Machine.step_end (Nat.le_refl _)))

end Runs

/-! ## The visible part of code -/

/-- Whether an instruction does more than take time. -/
def Instruction.isVisible : Instruction → Bool
  | .delay _ | .barrier _ _ | .sync | .wait => false
  | _ => true

/-- Barriers are not visible. -/
theorem Instruction.isBarrier_of_isVisible {i : Instruction} (h : i.isVisible = true) :
    i.isBarrier = false := by
  cases i with
  | barrier id lanes => cases h
  | _ => rfl

/-- The instructions that do more than take time. -/
def visible (code : List Instruction) : List Instruction := code.filter Instruction.isVisible

/-- The number of visible instructions before a position. -/
def visibleBefore (code : List Instruction) (p : Nat) : Nat :=
  (code.take p).countP Instruction.isVisible

/-- The machine at the same place of the visible part of its code. -/
def Machine.project (code : List Instruction) (m : Machine) : Machine :=
  { m with
    position := visibleBefore code m.position
    returns := m.returns.map (visibleBefore code) }

section Visible

variable {env : Environment} {code : List Instruction} {m m' : Machine} {i : Instruction} {p : Nat}

theorem visibleBefore_length (code : List Instruction) :
    visibleBefore code code.length = (visible code).length := by
  unfold visibleBefore visible
  rw [List.take_length, List.countP_eq_length_filter]

/-- Past a visible instruction there is one more before. -/
theorem visibleBefore_succ (h : code[p]? = some i) :
    visibleBefore code (p + 1) = visibleBefore code p + if i.isVisible then 1 else 0 := by
  unfold visibleBefore
  rw [List.take_add_one, h, Option.toList_some, List.countP_append, List.countP_singleton]

/-- A visible instruction has the place among the visible ones that their number before it says. -/
theorem getElem?_visible (h : code[p]? = some i) (hi : i.isVisible = true) :
    (visible code)[visibleBefore code p]? = some i := by
  obtain ⟨hlt, rfl⟩ := List.getElem?_eq_some_iff.1 h
  have hsplit : visible code =
      visible (code.take p) ++ code[p] :: visible (code.drop (p + 1)) := by
    conv_lhs => rw [← List.take_append_drop p code, List.drop_eq_getElem_cons hlt]
    unfold visible
    rw [List.filter_append, List.filter_cons_of_pos hi]
  have hlen : visibleBefore code p = (visible (code.take p)).length :=
    List.countP_eq_length_filter
  rw [hsplit, hlen, List.getElem?_append_right (Nat.le_refl _), Nat.sub_self]
  rfl

/-- Labels are visible, so the visible part has them where the code has them. -/
theorem labelPosition?_visible (code : List Instruction) (l : Label) :
    labelPosition? (visible code) l = (labelPosition? code l).map (visibleBefore code) := by
  unfold labelPosition? visible visibleBefore
  induction code with
  | nil => rfl
  | cons j code ih =>
    rw [List.findIdx?_cons]
    cases hdef : j.defines l with
    | true =>
      obtain rfl := Instruction.defines_iff.1 hdef
      rw [List.filter_cons_of_pos rfl, List.findIdx?_cons, hdef]
      rfl
    | false =>
      simp only [Bool.false_eq_true, if_false, Option.map_map]
      cases hvis : j.isVisible with
      | true =>
        rw [List.filter_cons_of_pos hvis, List.findIdx?_cons, hdef, ih]
        simp only [Bool.false_eq_true, if_false, Option.map_map]
        congr 1
        funext k
        simp [hvis]
      | false =>
        rw [List.filter_cons_of_neg (by simp [hvis]), ih]
        congr 1
        funext k
        simp [hvis]

/-- Instructions that are not visible are passed. -/
theorem Machine.perform_of_silent (env : Environment) (code : List Instruction) (m : Machine)
    (hi : i.isVisible = false) : m.perform env code i = some m.advance := by
  cases i with
  | delay | barrier | sync | wait => rfl
  | _ => cases hi

/-- A silent instruction is nothing to the visible part. -/
theorem Machine.project_of_silent (h : code[m.position]? = some i) (hi : i.isVisible = false)
    (hstep : m.step env code = some m') : m'.project code = m.project code := by
  rw [step_of_getElem? h, perform_of_silent env code m hi] at hstep
  cases hstep
  simp only [project, advance, visibleBefore_succ h, hi, Bool.false_eq_true, if_false,
    Nat.add_zero]

/-- A visible instruction is performed in the visible part as it is in the code. -/
theorem Machine.step_project (h : code[m.position]? = some i) (hi : i.isVisible = true) :
    (m.project code).step env (visible code) = (m.step env code).map (project code) := by
  have hget : (visible code)[(m.project code).position]? = some i := getElem?_visible h hi
  have hnext : visibleBefore code (m.position + 1) = visibleBefore code m.position + 1 := by
    rw [visibleBefore_succ h, if_pos hi]
  rw [step_of_getElem? hget, step_of_getElem? h]
  cases i with
  | pulse | store => simp [perform, emit, advance, project, hnext]
  | label | compare | loadCompare | loadRepeat => simp [perform, advance, project, hnext]
  | goto target =>
    simp only [perform, labelPosition?_visible, Option.map_map]
    rfl
  | gotoIf test target =>
    simp only [perform, labelPosition?_visible]
    by_cases htest : test.holds env m.trace
    · simp only [project, htest, if_true, Option.map_map]
      rfl
    · simp [project, advance, htest, hnext]
  | call target =>
    simp only [perform, labelPosition?_visible, Option.map_map]
    congr 1
    funext p
    simp [project, hnext]
  | ret =>
    rcases m with ⟨position, returns, counters, trace⟩
    cases returns <;> simp [perform, project]
  | repeatFrom target =>
    rcases m with ⟨position, returns, counters, trace⟩
    cases counters with
    | nil => simp [perform, project]
    | cons c counters =>
      simp only [perform, project, labelPosition?_visible]
      by_cases hc : c ≤ 1
      · have hnext' : visibleBefore code (position + 1) = visibleBefore code position + 1 := hnext
        simp [hc, advance, project, hnext']
      · simp only [hc, if_false, Option.map_map]
        rfl
  | delay | barrier | sync | wait => cases hi

/-- What is reached by the code is reached by its visible part. -/
theorem Reaches.project (h : Reaches env code m m') :
    Reaches env (visible code) (m.project code) (m'.project code) := by
  obtain ⟨n, hn⟩ := h
  induction n generalizing m with
  | zero =>
    cases hn
    exact .refl _
  | succ n ih =>
    obtain ⟨m₁, hstep, hrest⟩ := Option.bind_eq_some_iff.1 hn
    cases hi : code[m.position]? with
    | none =>
      rw [Machine.step, hi] at hstep
      cases hstep
    | some i =>
      cases hvis : i.isVisible with
      | false => exact Machine.project_of_silent hi hvis hstep ▸ ih hrest
      | true =>
        have hone : (m.project code).step env (visible code) = some (m₁.project code) := by
          rw [Machine.step_project hi hvis, hstep]
          rfl
        exact (Reaches.one hone).trans (ih hrest)

/-- The machine goes on to the next visible instruction, or to the end. -/
theorem Machine.reaches_visible (env : Environment) (code : List Instruction) (m : Machine) :
    ∃ m', Reaches env code m m' ∧ m'.project code = m.project code ∧
      ∀ i, code[m'.position]? = some i → i.isVisible = true := by
  -- Silent instructions only advance, so the code that is left gets shorter.
  induction hk : code.length - m.position generalizing m with
  | zero =>
    refine ⟨m, .refl _, rfl, ?_⟩
    intro i hi
    have := (List.getElem?_eq_some_iff.1 hi).1
    omega
  | succ k ih =>
    obtain ⟨i, hi⟩ : ∃ i, code[m.position]? = some i := ⟨_, List.getElem?_eq_getElem (by omega)⟩
    cases hvis : i.isVisible with
    | true =>
      refine ⟨m, .refl _, rfl, ?_⟩
      intro j hj
      rw [hi] at hj
      cases hj
      exact hvis
    | false =>
      have hstep : m.step env code = some m.advance := by
        rw [step_of_getElem? hi, perform_of_silent env code m hvis]
      have hpos : code.length - m.advance.position = k := by
        simp only [advance]
        omega
      obtain ⟨m', hreach, hproj, hend⟩ := ih m.advance hpos
      exact ⟨m', (Reaches.one hstep).trans hreach,
        hproj.trans (project_of_silent hi hvis hstep), hend⟩

/-- All positions of the machine are in its code or at its end. -/
def Machine.InRange (code : List Instruction) (m : Machine) : Prop :=
  m.position ≤ code.length ∧ ∀ r ∈ m.returns, r ≤ code.length

/-- Labels are found inside of the code. -/
theorem labelPosition?_lt {l : Label} (h : labelPosition? code l = some p) : p < code.length :=
  (List.findIdx?_eq_some_iff_getElem.1 h).1

/-- A jump to a label stays in range. -/
theorem Machine.InRange.of_jump {l : Label} {f : Nat → Machine}
    (h : (labelPosition? code l).map f = some m') (hposition : ∀ p, (f p).position = p)
    (hreturns : ∀ p, ∀ r ∈ (f p).returns, r ≤ code.length) : m'.InRange code := by
  obtain ⟨p, hlabel, rfl⟩ := Option.map_eq_some_iff.1 h
  refine ⟨?_, hreturns p⟩
  rw [hposition]
  exact Nat.le_of_lt (labelPosition?_lt hlabel)

/-- A step stays in range: jumps go to labels of the code and returns behind calls in it. -/
theorem Machine.InRange.step (h : m.InRange code) (hstep : m.step env code = some m') :
    m'.InRange code := by
  obtain ⟨hpos, hret⟩ := h
  unfold Machine.step at hstep
  cases hi : code[m.position]? with
  | none =>
    rw [hi] at hstep
    cases hstep
  | some i =>
    have hlt : m.position + 1 ≤ code.length := (List.getElem?_eq_some_iff.1 hi).1
    rw [hi] at hstep
    cases i with
    | goto target => exact .of_jump hstep (fun _ => rfl) (fun _ => hret)
    | gotoIf test target =>
      simp only [perform] at hstep
      split at hstep
      · exact .of_jump hstep (fun _ => rfl) (fun _ => hret)
      · cases hstep
        exact ⟨hlt, hret⟩
    | call target =>
      refine .of_jump hstep (fun _ => rfl) ?_
      rintro p r (_ | ⟨_, hr⟩)
      · exact hlt
      · exact hret r hr
    | ret =>
      rcases m with ⟨position, _ | ⟨p, returns⟩, counters, trace⟩
      · cases hstep
      · cases hstep
        exact ⟨hret p (.head _), fun r hr => hret r (.tail _ hr)⟩
    | repeatFrom target =>
      rcases m with ⟨position, returns, _ | ⟨c, counters⟩, trace⟩
      · cases hstep
      · simp only [perform] at hstep
        split at hstep
        · cases hstep
          exact ⟨hlt, hret⟩
        · exact .of_jump hstep (fun _ => rfl) (fun _ => hret)
    | pulse | store | loadRepeat | delay | label | barrier | sync | wait | compare | loadCompare =>
      cases hstep
      exact ⟨hlt, hret⟩

/-- So does a run. -/
theorem Machine.InRange.reaches (h : m.InRange code) (hreach : Reaches env code m m') :
    m'.InRange code := by
  obtain ⟨n, hn⟩ := hreach
  induction n generalizing m with
  | zero =>
    cases hn
    exact h
  | succ n ih =>
    obtain ⟨m₁, hstep, hrest⟩ := Option.bind_eq_some_iff.1 hn
    exact ih (h.step hstep) hrest

/-- Whatever a machine comes to in the visible part, it comes to in the code. -/
theorem Reaches.lift {x : Machine} (h : Reaches env (visible code) (m.project code) x) :
    ∃ m', Reaches env code m m' ∧ m'.project code = x := by
  obtain ⟨n, hn⟩ := h
  induction n generalizing m with
  | zero =>
    cases hn
    exact ⟨m, .refl _, rfl⟩
  | succ n ih =>
    -- Silent instructions first, so that both machines are at the same one.
    obtain ⟨m₁, hreach, hproj, hvis⟩ := m.reaches_visible env code
    rw [← hproj] at hn
    obtain ⟨y, hstep, hrest⟩ := Option.bind_eq_some_iff.1 hn
    cases hi : code[m₁.position]? with
    | none =>
      have hend : (visible code).length ≤ (m₁.project code).position := by
        have hle := List.getElem?_eq_none_iff.1 hi
        refine Nat.le_of_eq ?_
        show _ = visibleBefore code m₁.position
        rw [← visibleBefore_length, visibleBefore, visibleBefore, List.take_of_length_le hle,
          List.take_length]
      rw [Machine.step_end hend] at hstep
      cases hstep
    | some i =>
      rw [Machine.step_project hi (hvis i hi)] at hstep
      obtain ⟨m₂, hstep₂, rfl⟩ := Option.map_eq_some_iff.1 hstep
      obtain ⟨m', hreach', hm'⟩ := ih hrest
      exact ⟨m', (hreach.trans (.one hstep₂)).trans hreach', hm'⟩

/-- The machine comes to the end of some code with the traces with which it comes to the end of the
visible part. -/
theorem completes_iff_visible (env : Environment) (code : List Instruction) (trace : List Event) :
    Completes env code trace ↔ Completes env (visible code) trace := by
  constructor
  · rintro ⟨returns, counters, h⟩
    have hproj := h.project
    simp only [Machine.project, visibleBefore_length] at hproj
    exact ⟨_, counters, hproj⟩
  · rintro ⟨returns, counters, h⟩
    have hstart : (Machine.start.project code) = .start := rfl
    rw [← hstart] at h
    obtain ⟨m, hreach, hm⟩ := h.lift
    obtain ⟨m', hreach', hproj, hvis⟩ := m.reaches_visible env code
    have hrange : Machine.InRange code .start := ⟨Nat.zero_le _, by simp [Machine.start]⟩
    have hle := ((hrange.reaches hreach).reaches hreach').1
    rw [← hproj] at hm
    have hpos : m'.position = code.length := by
      by_contra hne
      have hi := List.getElem?_eq_getElem (show m'.position < code.length by omega)
      have hget := getElem?_visible hi (hvis _ hi)
      have hlast : visibleBefore code m'.position = (visible code).length :=
        congrArg Machine.position hm
      rw [hlast, List.getElem?_eq_none (Nat.le_refl _)] at hget
      cases hget
    have hcounters : m'.counters = counters := congrArg Machine.counters hm
    have htrace : m'.trace = trace := congrArg Machine.trace hm
    refine ⟨m'.returns, counters, ?_⟩
    rw [← hpos, ← hcounters, ← htrace]
    exact hreach.trans hreach'

end Visible

end Lockstep
