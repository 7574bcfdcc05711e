import Lockstep.Proofs.Lowered

/-!
# Statements that are admitted

Lowering refuses a `break` or `continue` outside of all loops, a test that is no single comparison,
and a member of a grouped statement that is no group. All of this can be read off a list of
statements: `visitsAll` lists the statements at any depth in the order in which they are visited,
and `Visit.violation?` looks at one of them.

* `Admissible` says which statements are well-formed, and `admissible_iff` that these are the ones
  in which no visit finds a violation.
* `answers_lowerAll` is the law of the lowering: its refusal is the first violation that is visited,
  and the loops around are the same afterwards, also when it is refused. Each case of a statement
  is put together from the laws of the steps of a lowering (`Answers.bind` and those before it).
* `Lowerer.lower_admits_exactly` says both at once.

So neither the labels that are taken already nor the label supply have a part in a refusal
(`Lowerer.exists_lower_of_lower`, `lowerAll_ne_label`).
-/

set_option autoImplicit false

namespace Lockstep

/-! ## Tests that are admitted -/

namespace Expr

/-- The tests that come down to a single comparison: a name, a call, a negated name, or a name that
is compared with a literal. -/
inductive Testable : Expr → Prop
  | var (name : String) : Testable (.var name)
  | call (callee : String) (args : List Expr) (duration : Duration) :
      Testable (.call callee args duration)
  | not (name : String) : Testable (.not (.var name))
  | compareInt {relation : Relation} (name : String) (value : Int64) :
      relation ∈ [.eq, .ne, .gt, .lt] → Testable (.compare (.var name) relation (.int value))
  | compareBool {relation : Relation} (name : String) (value : Bool) :
      relation ∈ [.eq, .ne, .gt, .lt] → Testable (.compare (.var name) relation (.bool value))

/-- The expressions with a constant truth value: literals, and what is made of them by negation. -/
inductive Constant : Expr → Prop
  | bool (value : Bool) : Constant (.bool value)
  | int (value : Int64) : Constant (.int value)
  | not {inner : Expr} : Constant inner → Constant (.not inner)

theorem isTestable_iff {relation : Relation} :
    relation.isTestable = true ↔ relation ∈ [.eq, .ne, .gt, .lt] := by
  cases relation <;> decide

/-- What is taken for a comparison is a test. -/
theorem testable_of_comparison? {test : Expr} {c : Comparison} (h : test.comparison? = some c) :
    test.Testable := by
  unfold comparison? at h
  split at h
  · exact .var _
  · exact .call _ _ _
  · exact .not _
  · split at h
    · rename_i htestable
      exact .compareInt _ _ (isTestable_iff.1 htestable)
    · cases h
  · split at h
    · rename_i htestable
      exact .compareBool _ _ (isTestable_iff.1 htestable)
    · cases h
  · cases h

/-- The tests are what lowering takes for a comparison. -/
theorem testable_iff {test : Expr} : test.Testable ↔ test.comparison?.isSome = true := by
  constructor
  · intro h
    cases h with
    | var name => rfl
    | call callee args duration => rfl
    | not name => rfl
    | compareInt name value hrelation =>
      rw [comparison?, if_pos (isTestable_iff.2 hrelation)]
      rfl
    | compareBool name value hrelation =>
      rw [comparison?, if_pos (isTestable_iff.2 hrelation)]
      rfl
  · intro h
    obtain ⟨c, hc⟩ := Option.isSome_iff_exists.1 h
    exact testable_of_comparison? hc

/-- The constants are what lowering takes for a constant truth value. -/
theorem constant_iff {test : Expr} : test.Constant ↔ test.constTruth?.isSome = true := by
  constructor
  · intro h
    induction h with
    | bool value => rfl
    | int value => rfl
    | not _ ih => rwa [constTruth?, Option.isSome_map]
  · intro h
    fun_induction constTruth? test with
    | case1 value => exact .bool value
    | case2 value => exact .int value
    | case3 inner ih =>
      rw [Option.isSome_map] at h
      exact .not (ih h)
    | case4 => cases h

end Expr

/-! ## Visits -/

/-- A statement where it is visited. -/
structure Visit where
  statement : Statement
  /-- Whether it stands inside of a loop. -/
  inLoop : Bool
  /-- Whether it is a member of a grouped statement. -/
  isMember : Bool

mutual

/-- The visits of the statements inside of a statement. The other branch of a choice is visited
before its body. -/
def Statement.innerVisits (inLoop : Bool) : Statement → List Visit
  | .call _ _ _ => []
  | .assign _ _ _ _ => []
  | .whileDo _ _ body => visitsAll true false body
  | .ifElse _ _ body orelse => visitsAll inLoop false orelse ++ visitsAll inLoop false body
  | .breakLoop _ => []
  | .continueLoop _ => []
  | .repeatTimes _ _ body => visitsAll true false body
  | .sequential _ body => visitsAll inLoop false body
  | .concurrent _ _ _ body => visitsAll inLoop false body
  | .grouped _ groups => visitsAll inLoop true groups
  | .group _ _ body => visitsAll inLoop false body

/-- The visits of statements in a row, each before those inside of it. -/
def visitsAll (inLoop isMember : Bool) : List Statement → List Visit
  | [] => []
  | s :: rest => ⟨s, inLoop, isMember⟩ :: (s.innerVisits inLoop ++ visitsAll inLoop isMember rest)

end

/-- Why a statement is refused where it is visited, whatever stands inside of it. -/
def Visit.violation? (v : Visit) : Option LoweringError :=
  if v.isMember && !v.statement.isGroup then some (.invalidGroup v.statement.location)
  else match v.statement with
    | .whileDo location test _ =>
      if test.constTruth?.isSome || test.comparison?.isSome then none
      else some (.unsupportedTest test.text location)
    | .ifElse location test _ _ =>
      if test.comparison?.isSome then none else some (.unsupportedTest test.text location)
    | .breakLoop location => if v.inLoop then none else some (.noEnclosingLoop "break" location)
    | .continueLoop location =>
      if v.inLoop then none else some (.noEnclosingLoop "continue" location)
    | _ => none

/-- The first violation in a list of visits. -/
def firstViolation? (visits : List Visit) : Option LoweringError :=
  visits.findSome? Visit.violation?

@[simp]
theorem firstViolation?_append (first others : List Visit) :
    firstViolation? (first ++ others) = (firstViolation? first).or (firstViolation? others) :=
  List.findSome?_append

@[simp]
theorem firstViolation?_cons (v : Visit) (others : List Visit) :
    firstViolation? (v :: others) = v.violation?.or (firstViolation? others) := by
  rw [firstViolation?, List.findSome?_cons]
  cases v.violation? <;> rfl

/-- What is asked of a statement where it is visited, whatever stands inside of it. -/
def Visit.Sound (v : Visit) : Prop :=
  (v.isMember = true → v.statement.isGroup = true) ∧
    match v.statement with
    | .breakLoop _ => v.inLoop = true
    | .continueLoop _ => v.inLoop = true
    | .ifElse _ test _ _ => test.Testable
    | .whileDo _ test _ => test.Constant ∨ test.Testable
    | _ => True

/-- Statements that are well-formed, at any depth: every `break` and `continue` stands inside of a
loop, every test of a choice comes down to a comparison and every test of a loop does or is
constant, and every member of a grouped statement is a group. -/
def Admissible (body : List Statement) : Prop := ∀ v ∈ visitsAll false false body, v.Sound

/-- A visit has no violation exactly if what is asked of its statement holds. -/
theorem Visit.violation?_eq_none_iff {v : Visit} : v.violation? = none ↔ v.Sound := by
  obtain ⟨s, inLoop, isMember⟩ := v
  -- A member that is no group is refused for that, and a group for nothing else.
  cases isMember with
  | true => cases s <;> simp [violation?, Sound, Statement.isGroup]
  | false =>
    cases s with
    | whileDo location test body =>
      simp only [violation?, Sound, Expr.testable_iff, Expr.constant_iff, Bool.false_and,
        Bool.false_eq_true, if_false, false_implies, true_and, Bool.or_eq_true]
      split <;> simp_all
    | ifElse location test body orelse =>
      simp only [violation?, Sound, Expr.testable_iff, Bool.false_and, Bool.false_eq_true,
        if_false, false_implies, true_and]
      split <;> simp_all
    | _ => simp [violation?, Sound]

/-- A body is admissible exactly if none of its visits has a violation. -/
theorem admissible_iff {body : List Statement} :
    Admissible body ↔ firstViolation? (visitsAll false false body) = none := by
  simp only [Admissible, firstViolation?, List.findSome?_eq_none_iff,
    Visit.violation?_eq_none_iff]

/-! ## The refusal of a lowering -/

namespace Lowering

/-- The error of a result. -/
def refusal? {α : Type} : Except LoweringError α → Option LoweringError
  | .ok _ => none
  | .error e => some e

/-- A lowering that starts with a lowerer is refused as stated, and leaves the loops as they were in
any case. -/
def Answers {α : Type} (x : Lowering α) (refusal : Option LoweringError) (s : Lowerer) : Prop :=
  refusal? (x.outcome s).1 = refusal ∧ (x.outcome s).2.loops = s.loops

section Answers

variable {α β : Type} {refusal refusal' : Option LoweringError} {s : Lowerer}

theorem answers_pure (a : α) (s : Lowerer) : Answers (pure a : Lowering α) none s :=
  ⟨rfl, rfl⟩

theorem answers_throw (e : LoweringError) (s : Lowerer) :
    Answers (throw e : Lowering α) (some e) s :=
  ⟨rfl, rfl⟩

theorem answers_lift (x : Except LoweringError α) (s : Lowerer) :
    Answers (liftM x : Lowering α) (refusal? x) s :=
  ⟨rfl, rfl⟩

/-- Of two steps the first refuses first. -/
theorem Answers.bind {x : Lowering α} {f : α → Lowering β} (hx : Answers x refusal s)
    (hf : ∀ a t, t.loops = s.loops → Answers (f a) refusal' t) :
    Answers (x >>= f) (refusal.or refusal') s := by
  obtain ⟨hresult, hloops⟩ := hx
  unfold Answers
  rw [outcome_bind]
  rcases hrun : x.outcome s with ⟨result, t⟩
  rw [hrun] at hresult hloops
  subst hresult
  cases result with
  | error e => exact ⟨rfl, hloops⟩
  | ok a =>
    obtain ⟨hresult', hloops'⟩ := hf a t hloops
    exact ⟨hresult', hloops'.trans hloops⟩

/-- What is done with a result is not refused. -/
theorem Answers.bind_pure {x : Lowering α} (hx : Answers x refusal s) (f : α → β) :
    Answers (x >>= fun a => pure (f a)) refusal s := by
  have h := hx.bind fun a t _ => answers_pure (f a) t
  rwa [Option.or_none] at h

/-- Stems that are apart are never refused an index. -/
theorem answers_takeIndex {stems : List String}
    (h : firstRepeated? [] stems = none) (s : Lowerer) :
    Answers (takeIndex stems) none s := by
  rw [Answers, (outcome_takeIndex_eq_ok h).2 ⟨rfl, rfl⟩]
  exact ⟨rfl, rfl⟩

/-- The loop around a body is closed again, also when the body is refused. -/
theorem Answers.withinLoop {labels : LoopLabels} {body : Lowering α}
    (h : Answers body refusal { s with loops := labels :: s.loops }) :
    Answers (withinLoop labels body) refusal s :=
  ⟨h.1, congrArg List.tail h.2⟩

/-- Only outside of all loops is there no innermost one. -/
theorem answers_innermostLoop (keyword : String) (location : Location) (s : Lowerer) :
    Answers (innermostLoop keyword location)
      (if s.loops.isEmpty then some (.noEnclosingLoop keyword location) else none) s := by
  rcases s with ⟨supply, _ | ⟨labels, loops⟩⟩ <;> exact ⟨rfl, rfl⟩

end Answers

end Lowering

open Lowering

/-- A test that is no comparison is refused with its text. -/
theorem Expr.refusal?_comparison (test : Expr) (location : Location) :
    refusal? (test.comparison location) =
      if test.comparison?.isSome then none else some (.unsupportedTest test.text location) := by
  unfold comparison
  cases test.comparison? <;> rfl

/-- The test of a loop may also be a constant. -/
theorem LoopExit.refusal?_ofTest (test : Expr) (location : Location) :
    refusal? (ofTest test location) =
      if test.constTruth?.isSome || test.comparison?.isSome then none
      else some (.unsupportedTest test.text location) := by
  unfold ofTest Expr.comparison
  rcases test.constTruth? with _ | _ | _ <;> cases test.comparison? <;> rfl

mutual

/-- A statement is refused for the first violation in it. -/
theorem answers_lower : ∀ (st : Statement) {inLoop : Bool} {s : Lowerer},
    inLoop = !s.loops.isEmpty →
      Answers st.lower (firstViolation? (⟨st, inLoop, false⟩ :: st.innerVisits inLoop)) s
  | .call loc c purpose, inLoop, s, _ => by
    rw [Statement.lower]
    exact answers_pure _ s
  | .assign loc target value purpose, inLoop, s, _ => by
    rw [Statement.lower]
    exact answers_pure _ s
  | .whileDo loc test body, inLoop, s, _ => by
    rw [Statement.lower, Statement.innerVisits, firstViolation?_cons]
    have htest := answers_lift (LoopExit.ofTest test loc) s
    rw [LoopExit.refusal?_ofTest] at htest
    refine htest.bind fun exit t _ => ?_
    refine (answers_takeIndex (by decide) t).bind fun k t _ => ?_
    exact (answers_lowerAll body rfl).withinLoop.bind_pure _
  | .ifElse loc test body orelse, inLoop, s, h => by
    rw [Statement.lower, Statement.innerVisits, firstViolation?_cons, firstViolation?_append]
    have htest := answers_lift (test.comparison loc) s
    rw [Expr.refusal?_comparison] at htest
    refine htest.bind fun c t ht => ?_
    refine (answers_takeIndex (by decide) t).bind fun k t' ht' => ?_
    have hloops : t'.loops = s.loops := ht'.trans ht
    refine (answers_lowerAll orelse (by rw [h, hloops])).bind fun _ t'' ht'' => ?_
    exact (answers_lowerAll body (by rw [h, ht'', hloops])).bind_pure _
  | .breakLoop loc, inLoop, s, h => by
    rw [Statement.lower, Statement.innerVisits]
    have hloop := answers_innermostLoop "break" loc s
    cases hempty : s.loops.isEmpty <;> rw [hempty] at h hloop <;> subst h <;>
      exact hloop.bind_pure _
  | .continueLoop loc, inLoop, s, h => by
    rw [Statement.lower, Statement.innerVisits]
    have hloop := answers_innermostLoop "continue" loc s
    cases hempty : s.loops.isEmpty <;> rw [hempty] at h hloop <;> subst h <;>
      exact hloop.bind_pure _
  | .repeatTimes loc count body, inLoop, s, _ => by
    rw [Statement.lower, Statement.innerVisits]
    refine (answers_takeIndex (by decide) s).bind fun k t _ => ?_
    exact (answers_lowerAll body rfl).withinLoop.bind_pure _
  | .sequential loc body, inLoop, s, h => by
    rw [Statement.lower, Statement.innerVisits]
    exact answers_lowerAll body h
  | .concurrent loc block lanes body, inLoop, s, h => by
    rw [Statement.lower, Statement.innerVisits]
    exact (answers_lowerAll body h).bind_pure _
  | .grouped loc groups, inLoop, s, h => by
    rw [Statement.lower, Statement.innerVisits]
    exact answers_lowerGroups groups h
  | .group loc lane body, inLoop, s, h => by
    rw [Statement.lower, Statement.innerVisits]
    exact (answers_lowerAll body h).bind_pure _

/-- Lowering is refused with the first violation that is visited, and leaves the loops around as
they were. -/
theorem answers_lowerAll : ∀ (body : List Statement) {inLoop : Bool} {s : Lowerer},
    inLoop = !s.loops.isEmpty →
      Answers (lowerAll body) (firstViolation? (visitsAll inLoop false body)) s
  | [], inLoop, s, _ => by
    rw [lowerAll, visitsAll]
    exact answers_pure _ s
  | st :: rest, inLoop, s, h => by
    rw [lowerAll, visitsAll, ← List.cons_append, firstViolation?_append]
    refine (answers_lower st h).bind fun _ t ht => ?_
    exact (answers_lowerAll rest (by rw [h, ht])).bind_pure _

/-- So is a row of groups. -/
theorem answers_lowerGroups : ∀ (members : List Statement) {inLoop : Bool} {s : Lowerer},
    inLoop = !s.loops.isEmpty →
      Answers (lowerGroups members) (firstViolation? (visitsAll inLoop true members)) s
  | [], inLoop, s, _ => by
    rw [lowerGroups, visitsAll]
    exact answers_pure _ s
  | member :: rest, inLoop, s, h => by
    rw [visitsAll, ← List.cons_append, firstViolation?_append]
    cases member with
    | group loc lane body =>
      rw [lowerGroups, Statement.innerVisits]
      refine (answers_lowerAll body h).bind fun _ t ht => ?_
      exact (answers_lowerGroups rest (by rw [h, ht])).bind_pure _
    | _ =>
      rw [lowerGroups_of_not_isGroup rfl]
      exact answers_throw _ s

end

/-! ## What is admitted -/

/-- No violation is about labels. -/
theorem Visit.violation?_ne_label (v : Visit) (e : LabelError) :
    v.violation? ≠ some (.label e) := by
  unfold violation?
  split
  · simp
  · split
    · split <;> simp
    · split <;> simp
    · split <;> simp
    · split <;> simp
    · simp

/-- The label supply never refuses. -/
theorem lowerAll_ne_label (body : List Statement) (s : Lowerer) (e : LabelError) :
    ((lowerAll body).outcome s).1 ≠ .error (.label e) := by
  intro h
  obtain ⟨hrefusal, -⟩ := answers_lowerAll body (s := s) rfl
  rw [h] at hrefusal
  obtain ⟨-, v, -, -, hv, -⟩ := List.findSome?_eq_some_iff.1 hrefusal.symm
  exact v.violation?_ne_label e hv

namespace Lowerer

variable {supply : LabelSupply} {body : List Statement}

/-- A body is refused for its first violation, whatever the supply is. -/
theorem refusal?_lower (supply : LabelSupply) (body : List Statement) :
    refusal? ((new supply).lower body).1 = firstViolation? (visitsAll false false body) :=
  (answers_lowerAll body rfl).1

/-- The admissible bodies are those that are lowered. -/
theorem exists_lower_iff :
    (∃ segments, ((new supply).lower body).1 = .ok segments) ↔ Admissible body := by
  rw [admissible_iff, ← refusal?_lower supply]
  cases ((new supply).lower body).1 with
  | ok segments => simp [refusal?]
  | error e => simp [refusal?]

/-- Whether statements can be lowered does not depend on the labels that are taken. -/
theorem exists_lower_of_lower
    (h : ∃ segments after, (new supply).lower body = (.ok segments, after))
    (supply' : LabelSupply) :
    ∃ segments after, (new supply').lower body = (.ok segments, after) := by
  obtain ⟨segments, after, hlower⟩ := h
  have hadmissible : Admissible body := exists_lower_iff.1 ⟨segments, congrArg Prod.fst hlower⟩
  obtain ⟨segments', hlower'⟩ := exists_lower_iff.2 hadmissible
  exact ⟨segments', _, Prod.ext hlower' rfl⟩

/-- Lowering admits exactly the statements that are well-formed. Others are refused with the error
of the first statement that is not as it should be where it stands; a statement is visited before
those inside of it, and the other branch of a choice before its body. -/
theorem lower_admits_exactly (supply : LabelSupply) (body : List Statement) :
    ((∃ segments, ((new supply).lower body).1 = .ok segments) ↔ Admissible body) ∧
    ∀ e, ((new supply).lower body).1 = .error e ↔
      ∃ before v after, visitsAll false false body = before ++ v :: after ∧
        (∀ u ∈ before, u.Sound) ∧ v.violation? = some e := by
  refine ⟨exists_lower_iff, ?_⟩
  intro e
  have herror : ((new supply).lower body).1 = .error e ↔
      refusal? ((new supply).lower body).1 = some e := by
    cases ((new supply).lower body).1 <;> simp [refusal?]
  rw [herror, refusal?_lower, firstViolation?, List.findSome?_eq_some_iff]
  constructor
  · rintro ⟨before, v, after, hvisits, hv, hbefore⟩
    exact ⟨before, v, after, hvisits, fun u hu => Visit.violation?_eq_none_iff.1 (hbefore u hu), hv⟩
  · rintro ⟨before, v, after, hvisits, hbefore, hv⟩
    exact ⟨before, v, after, hvisits, hv, fun u hu => Visit.violation?_eq_none_iff.2 (hbefore u hu)⟩

end Lowerer

/-- The other branch is visited first, so its stray `break` is found before the test in the body; a
constant test is admitted in a loop only. -/
example (place : Location) :
    firstViolation? (visitsAll false false
      [.whileDo .unknown (.not (.int 0)) [.breakLoop .unknown],
        .ifElse .unknown (.var "m") [.ifElse .unknown (.bool true) [] []] [.breakLoop place]]) =
      some (.noEnclosingLoop "break" place) := rfl

end Lockstep
