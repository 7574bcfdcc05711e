import Lockstep.Lowering
import Mathlib.Tactic.Common

/-!
# Structured execution

What a lane's statements do when they run: a trace of pulses and stores. Tests read runtime values,
which may depend on the trace so far. A run is given in two disciplines, which differ only in their
counted loops.

* `structured`: the body of `repeat(n)` is run `max n 1` times, unless a `break` ends the loop.
* `counted`: the rounds are counted on one stack. A loop puts its count there, the end of a round
  counts the innermost open counter down, and a `break` leaves its counter behind.

`RunsTo.counted_of_breaksApart`: a structured run is a counted one as long as no `break` leaves a
counted loop that stands in another one (`breaksApartAll`).
-/

set_option autoImplicit false

namespace Lockstep

/-! ## Events and tests -/

/-- Something that a lane does. -/
inductive Event where
  /-- A hardware action. -/
  | pulse (name : String) (duration : Duration)
  /-- An assignment to a runtime variable. -/
  | store (dest source : String)
deriving DecidableEq

/-- Runtime values by name; they may depend on what was done so far. -/
abbrev Environment := List Event → String → Int64

/-- Whether a relation holds between two integers. -/
def Relation.holds : Relation → Int64 → Int64 → Bool
  | .eq, a, b => a == b
  | .ne, a, b => a != b
  | .gt, a, b => decide (b < a)
  | .lt, a, b => decide (a < b)
  | .ge, a, b => decide (b ≤ a)
  | .le, a, b => decide (a ≤ b)

/-- The inverse of a relation holds exactly if the relation does not. -/
theorem Relation.holds_inverse (r : Relation) (a b : Int64) :
    r.inverse.holds a b = !r.holds a b := by
  cases r with
  | eq => rfl
  | ne => simp [inverse, holds, bne]
  | gt => simp [inverse, holds, ← Int64.not_lt]
  | lt => simp [inverse, holds, ← Int64.not_lt]
  | ge => simp [inverse, holds, ← Int64.not_lt]
  | le => simp [inverse, holds, ← Int64.not_lt]

/-- Whether a comparison holds after a trace. -/
def Comparison.holds (c : Comparison) (env : Environment) (trace : List Event) : Bool :=
  c.relation.holds (env trace c.operand) c.value

/-- The inverse of a comparison holds exactly if the comparison does not. -/
theorem Comparison.holds_inverse (c : Comparison) (env : Environment) (trace : List Event) :
    c.inverse.holds env trace = !c.holds env trace :=
  Relation.holds_inverse _ _ _

/-- The truth of a test after a trace: that of a constant, or that of the comparison it amounts
to. -/
def Expr.truth? (test : Expr) (env : Environment) (trace : List Event) : Option Bool :=
  match test.constTruth? with
  | some value => some value
  | none => test.comparison?.map fun c => c.holds env trace

/-- What a call does. -/
def callEvents (c : Call) : Purpose → List Event
  | .channelCreation => []
  | _ => [.pulse c.callee c.duration]

/-- What an assignment does. -/
def assignEvents (target : String) (value : Expr) : Purpose → List Event
  | .channelCreation | .plain => []
  | .runtime => [.store target value.text]
  | .measurement =>
    match value with
    | .call callee _ duration => [.pulse callee duration]
    | _ => [.store target value.text]

/-! ## Execution -/

/-- How statements end. -/
inductive Outcome where
  /-- After the last of them. -/
  | done
  /-- At a `break`. -/
  | broke
  /-- At a `continue`. -/
  | continued
deriving DecidableEq

theorem Outcome.done_ne_broke : Outcome.done ≠ .broke := by decide

theorem Outcome.continued_ne_broke : Outcome.continued ≠ .broke := by decide

/-- What a run has come to: its trace, and the counters of counted loops that are open. -/
structure Progress where
  trace : List Event
  counters : List Nat
deriving DecidableEq

/-- A part of a run; it has no result if it does not end within its bound. -/
abbrev Part := Progress → Option (Outcome × Progress)

/-- Go on after a part, unless it was left. -/
def andThen (first : Option (Outcome × Progress)) (next : Part) : Option (Outcome × Progress) :=
  match first with
  | some (.done, s) => next s
  | left => left

/-- A discipline for counted loops: from a bound on the rounds, the count and the body. -/
abbrev Rounds := Nat → Nat → Part → Progress → Option Progress

/-- Go on after a round of a loop, unless a `break` ended the loop. -/
def afterRound (round : Option (Outcome × Progress)) (next : Progress → Option Progress) :
    Option Progress :=
  match round with
  | none => none
  | some (.broke, s) => some s
  | some (_, s) => next s

/-- Rounds of a loop with a test, of which there are fewer than `fuel`. -/
def whileRounds (test : List Event → Option Bool) (body : Part) : Nat → Progress → Option Progress
  | 0, _ => none
  | fuel + 1, s =>
    match test s.trace with
    | none => none
    | some false => some s
    | some true => afterRound (body s) (whileRounds test body fuel)

/-- A body a number of times in a row, unless a `break` ends it. -/
def repeatRounds (body : Part) : Nat → Progress → Option Progress
  | 0, s => some s
  | n + 1, s => afterRound (body s) (repeatRounds body n)

/-- Count the innermost open counter down, and go on with another round unless that was the last
one. -/
def countDown (again : Progress → Option Progress) (s : Progress) : Option Progress :=
  match s.counters with
  | [] => none
  | c :: counters =>
    if c ≤ 1 then some { s with counters } else again { s with counters := (c - 1) :: counters }

/-- Rounds that are counted on the stack of open counters, at most `fuel` of them. -/
def counterRounds (body : Part) : Nat → Progress → Option Progress
  | 0, _ => none
  | fuel + 1, s => afterRound (body s) (countDown (counterRounds body fuel))

/-- A counted loop runs its body as often as its count says, and at least once. -/
def structured : Rounds := fun _ count body s => repeatRounds body (max count 1) s

/-- A counted loop opens a counter and counts its rounds on the stack. -/
def counted : Rounds := fun fuel count body s =>
  counterRounds body fuel { s with counters := count :: s.counters }

mutual

/-- Run a statement in a lane; no loop goes through more than `fuel` rounds. -/
def Statement.exec (rounds : Rounds) (env : Environment) (lane : LaneId) (fuel : Nat) :
    Statement → Part
  | .call _ c purpose, s => some (.done, { s with trace := s.trace ++ callEvents c purpose })
  | .assign _ target value purpose, s =>
    some (.done, { s with trace := s.trace ++ assignEvents target value purpose })
  | .whileDo _ test body, s =>
    (whileRounds (test.truth? env) (execAll rounds env lane fuel body) fuel s).map (.done, ·)
  | .ifElse _ test body orelse, s =>
    match test.truth? env s.trace with
    | none => none
    | some true => execAll rounds env lane fuel body s
    | some false => execAll rounds env lane fuel orelse s
  | .breakLoop _, s => some (.broke, s)
  | .continueLoop _, s => some (.continued, s)
  | .repeatTimes _ count body, s =>
    (rounds fuel count.toNat (execAll rounds env lane fuel body) s).map (.done, ·)
  | .sequential _ body, s => execAll rounds env lane fuel body s
  | .concurrent _ _ _ body, s => execAll rounds env lane fuel body s
  | .grouped _ groups, s => execAll rounds env lane fuel groups s
  | .group _ owner body, s =>
    if owner = lane then execAll rounds env lane fuel body s else some (.done, s)

/-- Run statements in a row. -/
def execAll (rounds : Rounds) (env : Environment) (lane : LaneId) (fuel : Nat) :
    List Statement → Part
  | [], s => some (.done, s)
  | st :: rest, s =>
    andThen (st.exec rounds env lane fuel s) (execAll rounds env lane fuel rest)

end

/-- The statements of a lane run to their end with a trace. -/
def RunsTo (rounds : Rounds) (env : Environment) (lane : LaneId) (body : List Statement)
    (trace : List Event) : Prop :=
  ∃ fuel counters, execAll rounds env lane fuel body ⟨[], []⟩ = some (.done, ⟨trace, counters⟩)

/-! ## Parts in a row -/

theorem andThen_done (next : Part) (s : Progress) : andThen (some (.done, s)) next = next s := rfl

/-- A part that is left skips what follows. -/
theorem andThen_left {o : Outcome} (h : o ≠ .done) (next : Part) (s : Progress) :
    andThen (some (o, s)) next = some (o, s) := by
  cases o with
  | done => exact absurd rfl h
  | broke => rfl
  | continued => rfl

/-- Parts in a row may be grouped in any way. -/
theorem andThen_assoc (first : Option (Outcome × Progress)) (second third : Part) :
    andThen (andThen first second) third = andThen first fun s => andThen (second s) third := by
  rcases first with _ | ⟨o, s⟩
  · rfl
  · cases o <;> rfl

/-- A row of groups runs as its first member and then the row of the others. -/
theorem execAll_grouped (rounds : Rounds) (env : Environment) (lane : LaneId) (fuel : Nat)
    (loc : Location) (first : Statement) (members rest : List Statement) (s : Progress) :
    execAll rounds env lane fuel (.grouped loc (first :: members) :: rest) s =
      execAll rounds env lane fuel (first :: .grouped loc members :: rest) s := by
  simp only [execAll, Statement.exec]
  exact andThen_assoc _ _ _

/-- Unless it is left by `break`, a round is followed by the next. -/
theorem afterRound_next {o : Outcome} (h : o ≠ .broke) (next : Progress → Option Progress)
    (s : Progress) : afterRound (some (o, s)) next = next s := by
  cases o with
  | done => rfl
  | broke => exact absurd rfl h
  | continued => rfl

/-- The last round takes the counter away. -/
theorem countDown_last {again : Progress → Option Progress} {trace : List Event} {c : Nat}
    {counters : List Nat} (h : c ≤ 1) :
    countDown again ⟨trace, c :: counters⟩ = some ⟨trace, counters⟩ :=
  if_pos h

/-- Any other round counts down and goes again. -/
theorem countDown_again {again : Progress → Option Progress} {trace : List Event} {c : Nat}
    {counters : List Nat} (h : ¬ c ≤ 1) :
    countDown again ⟨trace, c :: counters⟩ = again ⟨trace, (c - 1) :: counters⟩ :=
  if_neg h

/-! ## Breaks that leave a loop inside a counted loop -/

mutual

/-- No `break` leaves a counted loop that stands in another one. `inside` says that a counted loop
is around the statement, `nested` that the innermost loop around it is a counted loop inside another
one. Groups of other lanes do not count. -/
def Statement.breaksApart (lane : LaneId) (inside nested : Bool) : Statement → Bool
  | .call .. | .assign .. | .continueLoop _ => true
  | .breakLoop _ => !nested
  | .whileDo _ _ body => breaksApartAll lane inside false body
  | .ifElse _ _ body orelse =>
    breaksApartAll lane inside nested body && breaksApartAll lane inside nested orelse
  | .repeatTimes _ _ body => breaksApartAll lane true inside body
  | .sequential _ body => breaksApartAll lane inside nested body
  | .concurrent _ _ _ body => breaksApartAll lane inside nested body
  | .grouped _ groups => breaksApartAll lane inside nested groups
  | .group _ owner body => owner ≠ lane || breaksApartAll lane inside nested body

/-- No `break` in a row of statements leaves a counted loop that stands in another one. -/
def breaksApartAll (lane : LaneId) (inside nested : Bool) : List Statement → Bool
  | [] => true
  | s :: rest => s.breaksApart lane inside nested && breaksApartAll lane inside nested rest

end

/-- A counted loop inside another one, left by `break` in its first round. -/
def nestedBreak (outer inner : UInt32) : List Statement :=
  [.repeatTimes .unknown outer [.pulse "X" (.clamp 10),
    .repeatTimes .unknown inner [.pulse "Y" (.clamp 5), .breakLoop .unknown]]]

/-- A part of a counted run does what a part of a structured run does. It leaves the counters that
were open alone, adds none inside of a counted loop, and is not left by `break` where that would
leave a nested counted loop. -/
def Agrees (inside nested : Bool) (plain part : Part) : Prop :=
  ∀ s o s', plain s = some (o, s') → ∀ counters, ∃ extra,
    part ⟨s.trace, counters⟩ = some (o, ⟨s'.trace, extra ++ counters⟩) ∧
      (inside = true → extra = []) ∧ (nested = true → o ≠ .broke)

section Agreement

variable {inside nested : Bool} {plain part : Part}

/-- Parts that agree, agree in a row. -/
theorem Agrees.andThen {next next' : Part} (h : Agrees inside nested plain part)
    (h' : Agrees inside nested next next') :
    Agrees inside nested (fun s => andThen (plain s) next) (fun s => andThen (part s) next') := by
  intro s o s' (hrun : Lockstep.andThen (plain s) next = some (o, s')) counters
  rcases hfirst : plain s with _ | ⟨o₁, s₁⟩
  · rw [hfirst] at hrun
    cases hrun
  · obtain ⟨extra, hpart, hin, hnest⟩ := h s o₁ s₁ hfirst counters
    simp only [hpart]
    rw [hfirst] at hrun
    by_cases ho : o₁ = .done
    · subst ho
      obtain ⟨more, hnext, hin', hnest'⟩ := h' s₁ o s' hrun (extra ++ counters)
      refine ⟨more ++ extra, ?_, ?_, hnest'⟩
      · rw [andThen_done, hnext, List.append_assoc]
      · intro hi
        rw [hin hi, hin' hi]
        rfl
    · rw [andThen_left ho] at hrun ⊢
      cases hrun
      exact ⟨extra, rfl, hin, hnest⟩

/-- A loop with a test catches the `break`s of its body. -/
theorem Agrees.whileRounds {test : List Event → Option Bool} (h : Agrees inside false plain part)
    {fuel fuel' : Nat} (hle : fuel ≤ fuel') {s s' : Progress}
    (hrun : whileRounds test plain fuel s = some s') (counters : List Nat) :
    ∃ extra, whileRounds test part fuel' ⟨s.trace, counters⟩ =
      some ⟨s'.trace, extra ++ counters⟩ ∧ (inside = true → extra = []) := by
  induction fuel generalizing fuel' s counters with
  | zero => cases hrun
  | succ fuel ih =>
    obtain ⟨fuel', rfl⟩ : ∃ k, fuel' = k + 1 := ⟨fuel' - 1, by omega⟩
    unfold Lockstep.whileRounds at hrun ⊢
    rcases htest : test s.trace with _ | _ | _
    · simp only [htest] at hrun
      cases hrun
    · simp only [htest] at hrun ⊢
      cases hrun
      exact ⟨[], rfl, fun _ => rfl⟩
    · simp only [htest] at hrun ⊢
      rcases hbody : plain s with _ | ⟨o, s₁⟩
      · rw [hbody] at hrun
        cases hrun
      · obtain ⟨extra, hpart, hin, -⟩ := h s o s₁ hbody counters
        rw [hbody] at hrun
        rw [hpart]
        by_cases ho : o = .broke
        · subst ho
          cases hrun
          exact ⟨extra, rfl, hin⟩
        · rw [afterRound_next ho] at hrun ⊢
          obtain ⟨more, hmore, hin'⟩ := ih (Nat.le_of_succ_le_succ hle) hrun (extra ++ counters)
          refine ⟨more ++ extra, by rw [hmore, List.append_assoc], ?_⟩
          intro hi
          rw [hin hi, hin' hi]
          rfl

/-- The rounds of a counted loop: inside of it no counter is added, so that the end of each round
finds the loop's own counter. -/
theorem Agrees.counterRounds (h : Agrees true inside plain part) {n fuel : Nat} (hlt : n < fuel)
    {s s' : Progress} {c : Nat} (hc : max c 1 = n + 1)
    (hrun : repeatRounds plain (n + 1) s = some s') (counters : List Nat) :
    ∃ extra, counterRounds part fuel ⟨s.trace, c :: counters⟩ =
      some ⟨s'.trace, extra ++ counters⟩ ∧ (inside = true → extra = []) := by
  induction fuel generalizing n c s with
  | zero => omega
  | succ fuel ih =>
    unfold Lockstep.counterRounds
    rw [repeatRounds] at hrun
    rcases hbody : plain s with _ | ⟨o, s₁⟩
    · rw [hbody] at hrun
      cases hrun
    · obtain ⟨extra, hpart, hin, hnest⟩ := h s o s₁ hbody (c :: counters)
      obtain rfl : extra = [] := hin rfl
      rw [hbody] at hrun
      rw [hpart, List.nil_append]
      by_cases ho : o = .broke
      · subst ho
        cases hrun
        -- The counter stays behind, which is no harm unless a counted loop is around this one.
        exact ⟨[c], rfl, fun hi => absurd rfl (hnest hi)⟩
      · rw [afterRound_next ho] at hrun ⊢
        by_cases hc1 : c ≤ 1
        · obtain rfl : n = 0 := by omega
          cases hrun
          exact ⟨[], countDown_last hc1, fun _ => rfl⟩
        · obtain ⟨n, rfl⟩ : ∃ k, n = k + 1 := ⟨n - 1, by omega⟩
          rw [countDown_again hc1]
          exact ih (by omega) (by omega) hrun

/-- A loop agrees if its rounds do, since a `break` in it does not leave it. -/
theorem Agrees.caught {rounds rounds' : Progress → Option Progress}
    (h : ∀ s s', rounds s = some s' → ∀ counters, ∃ extra,
      rounds' ⟨s.trace, counters⟩ = some ⟨s'.trace, extra ++ counters⟩ ∧
        (inside = true → extra = [])) :
    Agrees inside nested (fun s => (rounds s).map (.done, ·))
      (fun s => (rounds' s).map (.done, ·)) := by
  intro s o s' hrun counters
  obtain ⟨s₁, hs, heq⟩ := Option.map_eq_some_iff.1 hrun
  cases heq
  obtain ⟨extra, hrounds, hin⟩ := h s s' hs counters
  exact ⟨extra, by simp only [hrounds, Option.map_some], hin, fun _ => Outcome.done_ne_broke⟩

/-- A part that ends without touching the counters. -/
theorem Agrees.same {o : Outcome} (f : List Event → List Event) (h : nested = true → o ≠ .broke) :
    Agrees inside nested (fun s => some (o, { s with trace := f s.trace }))
      (fun s => some (o, { s with trace := f s.trace })) := by
  intro s o' s' hrun counters
  cases hrun
  exact ⟨[], rfl, fun _ => rfl, h⟩

end Agreement

mutual

/-- Counted and structured runs of a statement agree if no `break` leaves a nested counted loop. -/
theorem Statement.agrees (env : Environment) (lane : LaneId) {fuel fuel' : Nat}
    (hle : fuel ≤ fuel') (hcount : UInt32.size ≤ fuel') :
    ∀ (st : Statement) (inside nested : Bool), st.breaksApart lane inside nested = true →
      Agrees inside nested (st.exec structured env lane fuel) (st.exec counted env lane fuel')
  | .call _ c purpose, _, _, _ => by
    exact .same (· ++ callEvents c purpose) (fun _ => Outcome.done_ne_broke)
  | .assign _ target value purpose, _, _, _ => by
    exact .same (· ++ assignEvents target value purpose) (fun _ => Outcome.done_ne_broke)
  | .whileDo _ test body, inside, nested, h => by
    -- A `break` in the body binds this loop, so it leaves no counted loop.
    have hbody := agreesAll env lane hle hcount body inside false h
    exact .caught fun _ _ hrun => hbody.whileRounds hle hrun
  | .ifElse _ test body orelse, inside, nested, h => by
    obtain ⟨hthen, helse⟩ := Bool.and_eq_true_iff.1 h
    intro s o s' hrun counters
    rw [Statement.exec] at hrun ⊢
    simp only
    rcases htest : test.truth? env s.trace with _ | _ | _
    · simp only [htest] at hrun
      cases hrun
    · simp only [htest] at hrun
      exact agreesAll env lane hle hcount orelse inside nested helse s o s' hrun counters
    · simp only [htest] at hrun
      exact agreesAll env lane hle hcount body inside nested hthen s o s' hrun counters
  | .breakLoop _, inside, nested, h => by
    refine .same id ?_
    rintro rfl
    cases h
  | .continueLoop _, _, _, _ => .same id (fun _ => Outcome.continued_ne_broke)
  | .repeatTimes _ count body, inside, nested, h => by
    have hbody := agreesAll env lane hle hcount body true inside h
    refine .caught fun s s' hrun counters => ?_
    -- The structured discipline needs no bound for its rounds, the counted one one above any count.
    obtain ⟨n, hn⟩ : ∃ n, max count.toNat 1 = n + 1 := ⟨max count.toNat 1 - 1, by omega⟩
    have hlt : n < fuel' := by
      have := count.toNat_lt_size
      simp only [UInt32.size] at this hcount
      omega
    rw [structured, hn] at hrun
    exact hbody.counterRounds hlt hn hrun counters
  | .sequential _ body, inside, nested, h => agreesAll env lane hle hcount body inside nested h
  | .concurrent _ _ _ body, inside, nested, h => agreesAll env lane hle hcount body inside nested h
  | .grouped _ groups, inside, nested, h => agreesAll env lane hle hcount groups inside nested h
  | .group _ owner body, inside, nested, h => by
    by_cases howner : owner = lane
    · subst howner
      have hbody : breaksApartAll owner inside nested body = true := by
        simpa [Statement.breaksApart] using h
      intro s o s' hrun counters
      rw [Statement.exec, if_pos rfl] at hrun ⊢
      exact agreesAll env owner hle hcount body inside nested hbody s o s' hrun counters
    · intro s o s' hrun counters
      rw [Statement.exec, if_neg howner] at hrun ⊢
      cases hrun
      exact ⟨[], rfl, fun _ => rfl, fun _ => Outcome.done_ne_broke⟩

/-- Where no `break` leaves a nested counted loop, a counted run with enough rounds does what a
structured run does. -/
theorem agreesAll (env : Environment) (lane : LaneId) {fuel fuel' : Nat}
    (hle : fuel ≤ fuel') (hcount : UInt32.size ≤ fuel') :
    ∀ (body : List Statement) (inside nested : Bool),
      breaksApartAll lane inside nested body = true →
      Agrees inside nested (execAll structured env lane fuel body)
        (execAll counted env lane fuel' body)
  | [], _, _, _ => .same id (fun _ => Outcome.done_ne_broke)
  | st :: rest, inside, nested, h => by
    obtain ⟨hst, hrest⟩ := Bool.and_eq_true_iff.1 h
    exact (st.agrees env lane hle hcount inside nested hst).andThen
      (agreesAll env lane hle hcount rest inside nested hrest)

end

/-- Statements that leave no nested counted loop by `break` run in the counted discipline to the
end that they have in the structured one. -/
theorem RunsTo.counted_of_breaksApart {env : Environment} {lane : LaneId} {body : List Statement}
    {trace : List Event} (hbreaks : breaksApartAll lane false false body = true)
    (h : RunsTo structured env lane body trace) : RunsTo counted env lane body trace := by
  obtain ⟨fuel, counters, hrun⟩ := h
  obtain ⟨extra, hcounted, -⟩ := agreesAll env lane (Nat.le_max_left fuel UInt32.size)
    (Nat.le_max_right _ _) body false false hbreaks _ _ _ hrun []
  exact ⟨_, _, hcounted⟩

end Lockstep
