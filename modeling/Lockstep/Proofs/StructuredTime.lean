import Lockstep.Proofs.Execution
import Lockstep.Timing

/-!
# The time of statements

How long a lane's statements take, read off the statements themselves. Two accounts are given, which
differ only in their counted loops.

* `spanAll`: a counted loop takes its body's time as often as its count says, unless a `break` ends
  it in the first round.
* `meterAll`: a counted loop that is left by `break` leaves its count behind. The end of a loop
  around it takes the count that was left last for its own: if that was to be the last round the
  loop ends there, otherwise the account is stuck.

The two always end the same way where both come to an end (`follows_meterAll`), and they agree as
long as no `break` leaves a counted loop that stands in another one
(`timing?_meterAll_of_breaksApart`).
-/

set_option autoImplicit false

namespace Lockstep

/-- The ticks that a number of events take: those of the pulses among them. -/
def eventTicks : List Event → Nat
  | [] => 0
  | .pulse _ duration :: events => duration.ticks + eventTicks events
  | .store _ _ :: events => eventTicks events

/-! ## The structured account -/

/-- How many ticks statements take and how they end, if that is known before they run. -/
abbrev Span := Option (Nat × Outcome)

namespace Span

/-- Statements and what comes after them. -/
def andThen (first next : Span) : Span :=
  match first with
  | some (ticks, .done) => next.map fun (more, o) => (ticks + more, o)
  | left => left

/-- A loop without an end of its own: its time is known if it is left in the first round. -/
def forever (body : Span) : Span :=
  match body with
  | some (ticks, .broke) => some (ticks, .done)
  | _ => none

/-- A counted loop. -/
def times (count : Nat) (body : Span) : Span :=
  match body with
  | none => none
  | some (ticks, .broke) => some (ticks, .done)
  | some (ticks, _) => some (max count 1 * ticks, .done)

/-- The timing that an account amounts to. -/
def timing : Span → Timing
  | none => .dynamic
  | some (ticks, _) => .fixed (.clamp ticks)

end Span

mutual

/-- The structured account of a statement. -/
def Statement.span (lane : LaneId) : Statement → Span
  | .call _ c purpose => some (eventTicks (callEvents c purpose), .done)
  | .assign _ target value purpose => some (eventTicks (assignEvents target value purpose), .done)
  | .whileDo _ test body =>
    match test.constTruth? with
    | none => none
    | some false => some (0, .done)
    | some true => (spanAll lane body).forever
  | .ifElse _ _ _ _ => none
  | .breakLoop _ => some (0, .broke)
  | .continueLoop _ => some (0, .continued)
  | .repeatTimes _ count body => (spanAll lane body).times count.toNat
  | .sequential _ body => spanAll lane body
  | .concurrent _ _ _ body => spanAll lane body
  | .grouped _ groups => spanAll lane groups
  | .group _ owner body => if owner = lane then spanAll lane body else some (0, .done)

/-- The structured account of statements in a row. -/
def spanAll (lane : LaneId) : List Statement → Span
  | [] => some (0, .done)
  | st :: rest => (st.span lane).andThen (spanAll lane rest)

end

/-! ## The account with counts left behind -/

/-- What is known before statements run. -/
inductive Meter where
  /-- Their time depends on runtime values. -/
  | dynamic
  /-- The end of a counted loop found a count that is not its own. -/
  | stuck
  /-- The ticks they take, how they end, and the counts they leave behind, the last one first. -/
  | done (ticks : Nat) (outcome : Outcome) (left : List Nat)
deriving DecidableEq

namespace Meter

/-- Statements and what comes after them. -/
def andThen (first next : Meter) : Meter :=
  match first with
  | .done ticks .done left =>
    match next with
    | .done more o left' => .done (ticks + more) o (left' ++ left)
    | other => other
  | other => other

/-- A loop without an end of its own. -/
def forever (body : Meter) : Meter :=
  match body with
  | .done ticks .broke left => .done ticks .done left
  | .done _ _ _ => .dynamic
  | other => other

/-- The end of a round of a counted loop, from the counts that its body leaves behind: the loop's
own count lies below them. -/
def endRound (count ticks : Nat) : List Nat → Meter
  | [] => .done (max count 1 * ticks) .done []
  | c :: left =>
    -- A last round ends the loop, with its own count still there below the others.
    if c ≤ 1 then .done ticks .done (left ++ [count]) else .stuck

/-- A counted loop. -/
def times (count : Nat) (body : Meter) : Meter :=
  match body with
  | .done ticks .broke left => .done ticks .done (left ++ [count])
  | .done ticks _ left => endRound count ticks left
  | other => other

/-- The timing that an account amounts to, if it is not stuck. -/
def timing? : Meter → Option Timing
  | .dynamic => some .dynamic
  | .stuck => none
  | .done ticks _ _ => some (.fixed (.clamp ticks))

end Meter

mutual

/-- The account of a statement with counts left behind. -/
def Statement.meter (lane : LaneId) : Statement → Meter
  | .call _ c purpose => .done (eventTicks (callEvents c purpose)) .done []
  | .assign _ target value purpose =>
    .done (eventTicks (assignEvents target value purpose)) .done []
  | .whileDo _ test body =>
    match test.constTruth? with
    | none => .dynamic
    | some false => .done 0 .done []
    | some true => (meterAll lane body).forever
  | .ifElse _ _ _ _ => .dynamic
  | .breakLoop _ => .done 0 .broke []
  | .continueLoop _ => .done 0 .continued []
  | .repeatTimes _ count body => (meterAll lane body).times count.toNat
  | .sequential _ body => meterAll lane body
  | .concurrent _ _ _ body => meterAll lane body
  | .grouped _ groups => meterAll lane groups
  | .group _ owner body => if owner = lane then meterAll lane body else .done 0 .done []

/-- The account of statements in a row with counts left behind. -/
def meterAll (lane : LaneId) : List Statement → Meter
  | [] => .done 0 .done []
  | st :: rest => (st.meter lane).andThen (meterAll lane rest)

end

section Combinators

variable {o : Outcome} {ticks count : Nat} {left : List Nat}

/-- A body that does not break is gone through in every round, at least once. -/
theorem Span.times_of_ne (h : o ≠ .broke) :
    Span.times count (some (ticks, o)) = some (max count 1 * ticks, .done) := by
  cases o with
  | done => rfl
  | broke => exact absurd rfl h
  | continued => rfl

/-- Code that is left early is not followed by the rest. -/
theorem Span.andThen_of_ne (h : o ≠ .done) (next : Span) :
    Span.andThen (some (ticks, o)) next = some (ticks, o) := by
  cases o with
  | done => exact absurd rfl h
  | broke => rfl
  | continued => rfl

/-- A loop without an end has no known time unless its body breaks. -/
theorem Span.forever_of_ne (h : o ≠ .broke) : Span.forever (some (ticks, o)) = none := by
  cases o with
  | done => rfl
  | broke => exact absurd rfl h
  | continued => rfl

/-- A round that does not break comes to the end of the loop, which counts it. -/
theorem Meter.times_of_ne (h : o ≠ .broke) :
    (Meter.done ticks o left).times count = endRound count ticks left := by
  cases o with
  | done => rfl
  | broke => exact absurd rfl h
  | continued => rfl

theorem Meter.andThen_of_ne (h : o ≠ .done) (next : Meter) :
    (Meter.done ticks o left).andThen next = .done ticks o left := by
  cases o with
  | done => exact absurd rfl h
  | broke => rfl
  | continued => rfl

/-- The end of a round without a `break` is a jump back, which makes the time unknown. -/
theorem Meter.forever_of_ne (h : o ≠ .broke) : (Meter.done ticks o left).forever = .dynamic := by
  cases o with
  | done => rfl
  | broke => exact absurd rfl h
  | continued => rfl

theorem Meter.nothing_andThen (next : Meter) : (Meter.done 0 .done []).andThen next = next := by
  cases next with
  | dynamic => rfl
  | stuck => rfl
  | done more o left => simp only [andThen, Nat.zero_add, List.append_nil]

/-- The account of code in a row does not depend on how the code is grouped. -/
theorem Meter.andThen_assoc (first second third : Meter) :
    (first.andThen second).andThen third = first.andThen (second.andThen third) := by
  cases first with
  | dynamic => rfl
  | stuck => rfl
  | done ticks o left =>
    by_cases ho : o = .done
    · subst ho
      cases second with
      | dynamic => rfl
      | stuck => rfl
      | done more o' left' =>
        by_cases ho' : o' = .done
        · subst ho'
          cases third with
          | dynamic => rfl
          | stuck => rfl
          | done rest o'' left'' =>
            simp only [andThen, Nat.add_assoc, List.append_assoc]
        · rw [Meter.andThen_of_ne ho']
          exact Meter.andThen_of_ne ho' third
    · rw [Meter.andThen_of_ne ho, Meter.andThen_of_ne ho, Meter.andThen_of_ne ho]

/-- A row of groups is metered as its first member and then the row of the others. -/
theorem meterAll_grouped (lane : LaneId) (loc : Location) (first : Statement)
    (members rest : List Statement) :
    meterAll lane (.grouped loc (first :: members) :: rest) =
      meterAll lane (first :: .grouped loc members :: rest) := by
  simp only [meterAll, Statement.meter]
  exact Meter.andThen_assoc _ _ _

end Combinators

/-! ## The two accounts go the same way -/

/-- Unless it is stuck, an account with counts left behind ends as the structured one does. -/
def Meter.Follows (m : Meter) (s : Span) : Prop :=
  match m with
  | .dynamic => s = none
  | .stuck => True
  | .done _ o _ => ∃ ticks, s = some (ticks, o)

namespace Meter.Follows

variable {m next : Meter} {s s' : Span}

/-- Code in a row ends as the structured account says if both parts do. -/
theorem andThen (h : m.Follows s) (h' : next.Follows s') :
    (m.andThen next).Follows (s.andThen s') := by
  cases m with
  | dynamic =>
    obtain rfl : s = none := h
    exact rfl
  | stuck => exact trivial
  | done ticks o left =>
    obtain ⟨t, rfl⟩ := h
    by_cases ho : o = .done
    · subst ho
      cases next with
      | dynamic =>
        obtain rfl : s' = none := h'
        exact rfl
      | stuck => exact trivial
      | done more o' left' =>
        obtain ⟨t', rfl⟩ := h'
        exact ⟨t + t', rfl⟩
    · rw [Meter.andThen_of_ne ho, Span.andThen_of_ne ho]
      exact ⟨t, rfl⟩

/-- A loop without an end does so if its body does. -/
theorem forever (h : m.Follows s) : m.forever.Follows s.forever := by
  cases m with
  | dynamic =>
    obtain rfl : s = none := h
    exact rfl
  | stuck => exact trivial
  | done ticks o left =>
    obtain ⟨t, rfl⟩ := h
    by_cases ho : o = .broke
    · subst ho
      exact ⟨t, rfl⟩
    · rw [Meter.forever_of_ne ho, Span.forever_of_ne ho]
      exact rfl

/-- A counted loop does so if its body does, unless counts that were left behind make it stuck. -/
theorem times (h : m.Follows s) (count : Nat) : (m.times count).Follows (s.times count) := by
  cases m with
  | dynamic =>
    obtain rfl : s = none := h
    exact rfl
  | stuck => exact trivial
  | done ticks o left =>
    obtain ⟨t, rfl⟩ := h
    by_cases ho : o = .broke
    · subst ho
      exact ⟨t, rfl⟩
    · rw [Meter.times_of_ne ho, Span.times_of_ne ho]
      cases left with
      | nil => exact ⟨_, rfl⟩
      | cons c left =>
        rw [endRound]
        split
        · exact ⟨_, rfl⟩
        · exact trivial

end Meter.Follows

mutual

theorem Statement.follows_meter (lane : LaneId) :
    ∀ st : Statement, (st.meter lane).Follows (st.span lane)
  | .call _ c purpose => ⟨_, rfl⟩
  | .assign _ target value purpose => ⟨_, rfl⟩
  | .whileDo _ test body => by
    have hbody := follows_meterAll lane body
    rw [Statement.meter, Statement.span]
    split
    · exact rfl
    · exact ⟨_, rfl⟩
    · exact hbody.forever
  | .ifElse _ _ _ _ => rfl
  | .breakLoop _ => ⟨_, rfl⟩
  | .continueLoop _ => ⟨_, rfl⟩
  | .repeatTimes _ count body => (follows_meterAll lane body).times count.toNat
  | .sequential _ body => follows_meterAll lane body
  | .concurrent _ _ _ body => follows_meterAll lane body
  | .grouped _ groups => follows_meterAll lane groups
  | .group _ owner body => by
    have hbody := follows_meterAll lane body
    rw [Statement.meter, Statement.span]
    split
    · exact hbody
    · exact ⟨_, rfl⟩

/-- Unless it is stuck, the account of any statements ends as the structured one does. -/
theorem follows_meterAll (lane : LaneId) :
    ∀ body : List Statement, (meterAll lane body).Follows (spanAll lane body)
  | [] => ⟨_, rfl⟩
  | st :: rest => (st.follows_meter lane).andThen (follows_meterAll lane rest)

end

/-! ## Where the two accounts agree -/

/-- An account with counts left behind says what the structured one says. No count is left inside of
a counted loop, and where a `break` would leave a nested counted loop there is none. -/
def Meter.Agrees (inside nested : Bool) (m : Meter) (s : Span) : Prop :=
  (s = none ∧ m = .dynamic) ∨ ∃ ticks o left, s = some (ticks, o) ∧ m = .done ticks o left ∧
    (inside = true → left = []) ∧ (nested = true → o ≠ .broke)

namespace Meter.Agrees

variable {inside nested : Bool} {m next : Meter} {s s' : Span}

theorem done {o : Outcome} (ticks : Nat) (h : nested = true → o ≠ .broke) :
    Agrees inside nested (.done ticks o []) (some (ticks, o)) :=
  .inr ⟨ticks, o, [], rfl, rfl, fun _ => rfl, h⟩

/-- The accounts of code in a row agree if those of both parts do. -/
theorem andThen (h : m.Agrees inside nested s) (h' : next.Agrees inside nested s') :
    (m.andThen next).Agrees inside nested (s.andThen s') := by
  rcases h with ⟨rfl, rfl⟩ | ⟨ticks, o, left, rfl, rfl, hin, hnest⟩
  · exact .inl ⟨rfl, rfl⟩
  · by_cases ho : o = .done
    · subst ho
      rcases h' with ⟨rfl, rfl⟩ | ⟨more, o', left', rfl, rfl, hin', hnest'⟩
      · exact .inl ⟨rfl, rfl⟩
      · refine .inr ⟨_, _, _, rfl, rfl, ?_, hnest'⟩
        intro hi
        rw [hin hi, hin' hi]
        rfl
    · rw [Meter.andThen_of_ne ho, Span.andThen_of_ne ho]
      exact .inr ⟨_, _, _, rfl, rfl, hin, hnest⟩

/-- The accounts of a loop without an end agree if those of its body do. A `break` of the body ends
the loop, so none is left for the loops around. -/
theorem forever (h : m.Agrees inside false s) : m.forever.Agrees inside nested s.forever := by
  rcases h with ⟨rfl, rfl⟩ | ⟨ticks, o, left, rfl, rfl, hin, -⟩
  · exact .inl ⟨rfl, rfl⟩
  · by_cases ho : o = .broke
    · subst ho
      exact .inr ⟨_, _, _, rfl, rfl, hin, fun _ => Outcome.done_ne_broke⟩
    · rw [Meter.forever_of_ne ho, Span.forever_of_ne ho]
      exact .inl ⟨rfl, rfl⟩

/-- The accounts of a counted loop agree if inside of it nothing is left behind: what a `break`
leaves is only the count of the loop itself. -/
theorem times (h : m.Agrees true inside s) (count : Nat) :
    (m.times count).Agrees inside nested (s.times count) := by
  rcases h with ⟨rfl, rfl⟩ | ⟨ticks, o, left, rfl, rfl, hin, hnest⟩
  · exact .inl ⟨rfl, rfl⟩
  · obtain rfl : left = [] := hin rfl
    by_cases ho : o = .broke
    · subst ho
      refine .inr ⟨_, _, _, rfl, rfl, ?_, fun _ => Outcome.done_ne_broke⟩
      intro hi
      exact absurd rfl (hnest hi)
    · rw [Meter.times_of_ne ho, Span.times_of_ne ho]
      exact .done _ fun _ => Outcome.done_ne_broke

end Meter.Agrees

mutual

theorem Statement.meter_agrees (lane : LaneId) : ∀ (st : Statement) (inside nested : Bool),
    st.breaksApart lane inside nested = true →
      (st.meter lane).Agrees inside nested (st.span lane)
  | .call _ c purpose, _, _, _ => .done _ fun _ => Outcome.done_ne_broke
  | .assign _ target value purpose, _, _, _ => .done _ fun _ => Outcome.done_ne_broke
  | .whileDo _ test body, inside, nested, h => by
    have hbody := meterAll_agrees lane body inside false h
    rw [Statement.meter, Statement.span]
    split
    · exact .inl ⟨rfl, rfl⟩
    · exact .done _ fun _ => Outcome.done_ne_broke
    · exact hbody.forever
  | .ifElse _ _ _ _, _, _, _ => .inl ⟨rfl, rfl⟩
  | .breakLoop _, inside, nested, h => by
    refine .done _ ?_
    rintro rfl
    cases h
  | .continueLoop _, _, _, _ => .done _ fun _ => Outcome.continued_ne_broke
  | .repeatTimes _ count body, inside, nested, h =>
    (meterAll_agrees lane body true inside h).times count.toNat
  | .sequential _ body, inside, nested, h => meterAll_agrees lane body inside nested h
  | .concurrent _ _ _ body, inside, nested, h => meterAll_agrees lane body inside nested h
  | .grouped _ groups, inside, nested, h => meterAll_agrees lane groups inside nested h
  | .group _ owner body, inside, nested, h => by
    rw [Statement.meter, Statement.span]
    by_cases howner : owner = lane
    · rw [if_pos howner, if_pos howner]
      rw [Statement.breaksApart, decide_eq_false (not_not_intro howner), Bool.false_or] at h
      exact meterAll_agrees lane body inside nested h
    · rw [if_neg howner, if_neg howner]
      exact .done _ fun _ => Outcome.done_ne_broke

/-- Where no `break` leaves a nested counted loop, both accounts of any statements agree. -/
theorem meterAll_agrees (lane : LaneId) : ∀ (body : List Statement) (inside nested : Bool),
    breaksApartAll lane inside nested body = true →
      (meterAll lane body).Agrees inside nested (spanAll lane body)
  | [], _, _, _ => .done _ fun _ => Outcome.done_ne_broke
  | st :: rest, inside, nested, h => by
    obtain ⟨hst, hrest⟩ := Bool.and_eq_true_iff.1 h
    exact (st.meter_agrees lane inside nested hst).andThen
      (meterAll_agrees lane rest inside nested hrest)

end

/-- Where no `break` leaves a nested counted loop, the account with counts left behind amounts to
the structured one. -/
theorem timing?_meterAll_of_breaksApart {lane : LaneId} {body : List Statement}
    (h : breaksApartAll lane false false body = true) :
    (meterAll lane body).timing? = some (spanAll lane body).timing := by
  rcases meterAll_agrees lane body false false h with ⟨hspan, hmeter⟩ | ⟨_, _, _, hspan, hmeter, -⟩
  · rw [hspan, hmeter]
    rfl
  · rw [hspan, hmeter]
    rfl

end Lockstep
