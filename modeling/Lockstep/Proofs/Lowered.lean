import Lockstep.Lowering
import Lockstep.Proofs.LabelRequests
import Lockstep.Proofs.Layout
import Mathlib.Data.List.Nodup

/-!
# Lowered statements

`Lowered loops n body segments m` presents a successful lowering without its state: inside the loops
`loops` and with `n` as the next free index, `body` is lowered to `segments`, and `m` is the next
free index then. It is one relation on lists of statements, so that a proof about lowered code is
one induction with a case for each kind of statement. `lowered_of_lowerAll` says that every
successful lowering is of this form.

From the relation: the code that a lane runs of lowered segments defines each of its labels once,
with an index from `n` up to `m` (`Lowered.freshLabels`). `WhilePlaced`, `IfPlaced` and
`RepeatPlaced` say where the parts of the three shapes of control flow stand.
-/

set_option autoImplicit false

namespace Lockstep

/-! ## Runs of a lowering -/

namespace Lowering

/-- The result of a lowering that starts with a lowerer, and the lowerer after it. -/
def outcome {α : Type} (x : Lowering α) (s : Lowerer) : Except LoweringError α × Lowerer := x s

section Outcome

variable {α β : Type} {s s' : Lowerer}

/-- One lowering after another: the second starts where the first ends, unless that failed. -/
theorem outcome_bind (x : Lowering α) (f : α → Lowering β) (s : Lowerer) :
    (x >>= f).outcome s =
      match x.outcome s with
      | (.ok a, t) => (f a).outcome t
      | (.error e, t) => (.error e, t) := by
  unfold outcome
  simp only [bind, ExceptT.bind, ExceptT.mk, StateT.bind]
  rcases x s with ⟨r, t⟩
  cases r with
  | error e => rfl
  | ok a => rfl

/-- Lowerings in a row succeed exactly if each of them does. -/
theorem outcome_bind_eq_ok {x : Lowering α} {f : α → Lowering β} {b : β} :
    (x >>= f).outcome s = (.ok b, s') ↔
      ∃ a t, x.outcome s = (.ok a, t) ∧ (f a).outcome t = (.ok b, s') := by
  rw [outcome_bind]
  rcases x.outcome s with ⟨r, t⟩
  cases r with
  | error e => simp
  | ok a =>
    constructor
    · exact fun h => ⟨a, t, rfl, h⟩
    · rintro ⟨a, t, h, hf⟩
      cases h
      exact hf

theorem outcome_pure_eq_ok {a b : α} :
    (pure a : Lowering α).outcome s = (.ok b, s') ↔ a = b ∧ s = s' := by
  show ((Except.ok a : Except LoweringError α), s) = (.ok b, s') ↔ _
  simp

theorem outcome_lift_eq_ok {x : Except LoweringError α} {a : α} :
    (liftM x : Lowering α).outcome s = (.ok a, s') ↔ x = .ok a ∧ s = s' := by
  show (x, s) = (.ok a, s') ↔ _
  simp

/-- Stems that are apart are given the next index, and it is taken. -/
theorem outcome_takeIndex_eq_ok {stems : List String} {k : Nat}
    (h : firstRepeated? [] stems = none) :
    (takeIndex stems).outcome s = (.ok k, s') ↔
      s.supply.next = k ∧ { s with supply := ⟨s.supply.next + 1⟩ } = s' := by
  simp [outcome, takeIndex, LabelSupply.takeLabels, h, LabelSupply.takeIndex]

/-- A body is lowered inside of its loop, which is closed again afterwards. -/
theorem outcome_withinLoop_eq_ok {labels : LoopLabels} {body : Lowering α} {a : α} :
    (withinLoop labels body).outcome s = (.ok a, s') ↔
      ∃ t, body.outcome { s with loops := labels :: s.loops } = (.ok a, t) ∧
        { t with loops := t.loops.tail } = s' := by
  have heq : (withinLoop labels body).outcome s =
      ((body.outcome { s with loops := labels :: s.loops }).1,
        { (body.outcome { s with loops := labels :: s.loops }).2 with
          loops := (body.outcome { s with loops := labels :: s.loops }).2.loops.tail }) := rfl
  rw [heq]
  rcases body.outcome { s with loops := labels :: s.loops } with ⟨r, t⟩
  constructor
  · intro h
    cases h
    exact ⟨t, rfl, rfl⟩
  · rintro ⟨t, h, rfl⟩
    cases h
    rfl

/-- There is an innermost loop exactly inside of a loop. -/
theorem outcome_innermostLoop_eq_ok {keyword : String} {location : Location}
    {labels : LoopLabels} :
    (innermostLoop keyword location).outcome s = (.ok labels, s') ↔
      (∃ outer, s.loops = labels :: outer) ∧ s = s' := by
  rcases s with ⟨supply, loops⟩
  cases loops with
  | nil =>
    show ((Except.error _ : Except LoweringError LoopLabels), _) = (.ok labels, s') ↔ _
    simp
  | cons l ls =>
    show ((Except.ok l : Except LoweringError LoopLabels), _) = (.ok labels, s') ↔ _
    simp

end Outcome

end Lowering

/-! ## Members that are no groups -/

/-- Whether a statement is a group. -/
def Statement.isGroup : Statement → Bool
  | .group _ _ _ => true
  | _ => false

/-- A member of a grouped statement that is no group is refused, whatever it is. -/
theorem lowerGroups_of_not_isGroup {s : Statement} (h : s.isGroup = false)
    (rest : List Statement) :
    lowerGroups (s :: rest) = throw (.invalidGroup s.location) := by
  cases s with
  | group => cases h
  | _ =>
    rw [lowerGroups]
    intro _ _ _ h
    cases h

/-! ## The relation -/

/-- Inside the loops `loops` and with `n` as the next free index, statements are lowered to
segments, and `m` is the next free index then. -/
inductive Lowered : List LoopLabels → Nat → List Statement → List Segment → Nat → Prop
  | nil (loops : List LoopLabels) (n : Nat) : Lowered loops n [] [] n
  | call {loops : List LoopLabels} {n m : Nat} {rest : List Statement} {others : List Segment}
      (loc : Location) (c : Call) (purpose : Purpose) :
      Lowered loops n rest others m →
      Lowered loops n (.call loc c purpose :: rest) (callShape c purpose ++ others) m
  | assign {loops : List LoopLabels} {n m : Nat} {rest : List Statement} {others : List Segment}
      (loc : Location) (target : String) (value : Expr) (purpose : Purpose) :
      Lowered loops n rest others m →
      Lowered loops n (.assign loc target value purpose :: rest)
        (assignShape target value purpose ++ others) m
  | whileDo {loops : List LoopLabels} {n k m : Nat} {body rest : List Statement}
      {inner others : List Segment} {loc : Location} {test : Expr} {exit : LoopExit} :
      LoopExit.ofTest test loc = .ok exit →
      Lowered (whileLabels n :: loops) (n + 1) body inner k →
      Lowered loops k rest others m →
      Lowered loops n (.whileDo loc test body :: rest) (whileShape n exit inner ++ others) m
  | ifElse {loops : List LoopLabels} {n j k m : Nat} {body orelse rest : List Statement}
      {inner otherwise others : List Segment} {loc : Location} {test : Expr} {c : Comparison} :
      test.comparison loc = .ok c →
      Lowered loops (n + 1) orelse otherwise j →
      Lowered loops j body inner k →
      Lowered loops k rest others m →
      Lowered loops n (.ifElse loc test body orelse :: rest)
        (ifShape n c inner otherwise ++ others) m
  | breakLoop {labels : LoopLabels} {loops : List LoopLabels} {n m : Nat} {rest : List Statement}
      {others : List Segment} (loc : Location) :
      Lowered (labels :: loops) n rest others m →
      Lowered (labels :: loops) n (.breakLoop loc :: rest)
        (Segment.ops [.goto labels.breakTo] ++ others) m
  | continueLoop {labels : LoopLabels} {loops : List LoopLabels} {n m : Nat}
      {rest : List Statement} {others : List Segment} (loc : Location) :
      Lowered (labels :: loops) n rest others m →
      Lowered (labels :: loops) n (.continueLoop loc :: rest)
        (Segment.ops [.goto labels.continueTo] ++ others) m
  | repeatTimes {loops : List LoopLabels} {n k m : Nat} {body rest : List Statement}
      {inner others : List Segment} (loc : Location) (count : UInt32) :
      Lowered (repeatLabels n :: loops) (n + 1) body inner k →
      Lowered loops k rest others m →
      Lowered loops n (.repeatTimes loc count body :: rest) (repeatShape n count inner ++ others) m
  | sequential {loops : List LoopLabels} {n k m : Nat} {body rest : List Statement}
      {inner others : List Segment} (loc : Location) :
      Lowered loops n body inner k →
      Lowered loops k rest others m →
      Lowered loops n (.sequential loc body :: rest) (inner ++ others) m
  | concurrent {loops : List LoopLabels} {n k m : Nat} {body rest : List Statement}
      {inner others : List Segment} (loc : Location) (block : BlockId) (lanes : List LaneId) :
      Lowered loops n body inner k →
      Lowered loops k rest others m →
      Lowered loops n (.concurrent loc block lanes body :: rest)
        (.concurrent block lanes inner :: others) m
  | noGroups {loops : List LoopLabels} {n m : Nat} {rest : List Statement} {others : List Segment}
      (loc : Location) :
      Lowered loops n rest others m →
      Lowered loops n (.grouped loc [] :: rest) others m
  | groups {loops : List LoopLabels} {n k m : Nat} {body members rest : List Statement}
      {inner others : List Segment} (loc place : Location) (lane : LaneId) :
      Lowered loops n body inner k →
      Lowered loops k (.grouped loc members :: rest) others m →
      Lowered loops n (.grouped loc (.group place lane body :: members) :: rest)
        (.group lane inner :: others) m
  | group {loops : List LoopLabels} {n k m : Nat} {body rest : List Statement}
      {inner others : List Segment} (loc : Location) (lane : LaneId) :
      Lowered loops n body inner k →
      Lowered loops k rest others m →
      Lowered loops n (.group loc lane body :: rest) (.group lane inner :: others) m

/-- What one lowered statement contributes: it can be put before any lowered statements that go on
where it ends. -/
def LoweredFirst (s s' : Lowerer) (first : Statement) (segments : List Segment) : Prop :=
  s'.loops = s.loops ∧ ∀ rest others m, Lowered s.loops s'.supply.next rest others m →
    Lowered s.loops s.supply.next (first :: rest) (segments ++ others) m

open Lowering

mutual

/-- A statement that is lowered stands before all that is lowered after it. -/
theorem loweredFirst_of_lower : ∀ (st : Statement) {s s' : Lowerer} {segments : List Segment},
    st.lower.outcome s = (.ok segments, s') → LoweredFirst s s' st segments
  | .call loc c purpose, s, s', segments, h => by
    rw [Statement.lower, outcome_pure_eq_ok] at h
    obtain ⟨rfl, rfl⟩ := h
    exact ⟨rfl, fun _ _ _ hrest => .call loc c purpose hrest⟩
  | .assign loc target value purpose, s, s', segments, h => by
    rw [Statement.lower, outcome_pure_eq_ok] at h
    obtain ⟨rfl, rfl⟩ := h
    exact ⟨rfl, fun _ _ _ hrest => .assign loc target value purpose hrest⟩
  | .whileDo loc test body, s, s', segments, h => by
    -- The steps of the lowering in their order: the test, an index, the body within the loop.
    rw [Statement.lower, outcome_bind_eq_ok] at h
    obtain ⟨exit, t, hlift, h⟩ := h
    obtain ⟨hexit, rfl⟩ := outcome_lift_eq_ok.1 hlift
    obtain ⟨k, t, hk, h⟩ := outcome_bind_eq_ok.1 h
    obtain ⟨rfl, rfl⟩ := (outcome_takeIndex_eq_ok (by decide)).1 hk
    obtain ⟨inner, t, hwithin, h⟩ := outcome_bind_eq_ok.1 h
    obtain ⟨t', hinner, rfl⟩ := outcome_withinLoop_eq_ok.1 hwithin
    obtain ⟨rfl, rfl⟩ := outcome_pure_eq_ok.1 h
    obtain ⟨hloops, hbody⟩ := lowered_of_lowerAll body hinner
    refine ⟨by rw [hloops]; rfl, fun _ _ _ hrest => .whileDo hexit hbody hrest⟩
  | .ifElse loc test body orelse, s, s', segments, h => by
    rw [Statement.lower, outcome_bind_eq_ok] at h
    obtain ⟨c, t, hlift, h⟩ := h
    obtain ⟨hc, rfl⟩ := outcome_lift_eq_ok.1 hlift
    obtain ⟨k, t, hk, h⟩ := outcome_bind_eq_ok.1 h
    obtain ⟨rfl, rfl⟩ := (outcome_takeIndex_eq_ok (by decide)).1 hk
    obtain ⟨otherwise, t, hother, h⟩ := outcome_bind_eq_ok.1 h
    obtain ⟨inner, t', hinner, h⟩ := outcome_bind_eq_ok.1 h
    obtain ⟨rfl, rfl⟩ := outcome_pure_eq_ok.1 h
    obtain ⟨hloops, horelse⟩ := lowered_of_lowerAll orelse hother
    obtain ⟨hloops', hbody⟩ := lowered_of_lowerAll body hinner
    -- The other branch is lowered first, so the body goes on where it ends.
    rw [hloops] at hloops' hbody
    exact ⟨hloops', fun _ _ _ hrest => .ifElse hc horelse hbody hrest⟩
  | .breakLoop loc, s, s', segments, h => by
    rw [Statement.lower, outcome_bind_eq_ok] at h
    obtain ⟨labels, t, hl, h⟩ := h
    obtain ⟨⟨outer, hloops⟩, rfl⟩ := outcome_innermostLoop_eq_ok.1 hl
    obtain ⟨rfl, rfl⟩ := outcome_pure_eq_ok.1 h
    refine ⟨rfl, fun _ _ _ hrest => ?_⟩
    rw [hloops] at hrest ⊢
    exact .breakLoop loc hrest
  | .continueLoop loc, s, s', segments, h => by
    rw [Statement.lower, outcome_bind_eq_ok] at h
    obtain ⟨labels, t, hl, h⟩ := h
    obtain ⟨⟨outer, hloops⟩, rfl⟩ := outcome_innermostLoop_eq_ok.1 hl
    obtain ⟨rfl, rfl⟩ := outcome_pure_eq_ok.1 h
    refine ⟨rfl, fun _ _ _ hrest => ?_⟩
    rw [hloops] at hrest ⊢
    exact .continueLoop loc hrest
  | .repeatTimes loc count body, s, s', segments, h => by
    rw [Statement.lower, outcome_bind_eq_ok] at h
    obtain ⟨k, t, hk, h⟩ := h
    obtain ⟨rfl, rfl⟩ := (outcome_takeIndex_eq_ok (by decide)).1 hk
    obtain ⟨inner, t, hwithin, h⟩ := outcome_bind_eq_ok.1 h
    obtain ⟨t', hinner, rfl⟩ := outcome_withinLoop_eq_ok.1 hwithin
    obtain ⟨rfl, rfl⟩ := outcome_pure_eq_ok.1 h
    obtain ⟨hloops, hbody⟩ := lowered_of_lowerAll body hinner
    refine ⟨by rw [hloops]; rfl, fun _ _ _ hrest => .repeatTimes loc count hbody hrest⟩
  | .sequential loc body, s, s', segments, h => by
    rw [Statement.lower] at h
    obtain ⟨hloops, hbody⟩ := lowered_of_lowerAll body h
    exact ⟨hloops, fun _ _ _ hrest => .sequential loc hbody hrest⟩
  | .concurrent loc block lanes body, s, s', segments, h => by
    rw [Statement.lower, outcome_bind_eq_ok] at h
    obtain ⟨inner, t, hinner, h⟩ := h
    obtain ⟨rfl, rfl⟩ := outcome_pure_eq_ok.1 h
    obtain ⟨hloops, hbody⟩ := lowered_of_lowerAll body hinner
    exact ⟨hloops, fun _ _ _ hrest => .concurrent loc block lanes hbody hrest⟩
  | .grouped loc groups, s, s', segments, h => by
    rw [Statement.lower] at h
    exact loweredFirst_of_lowerGroups groups loc h
  | .group loc lane body, s, s', segments, h => by
    rw [Statement.lower, outcome_bind_eq_ok] at h
    obtain ⟨inner, t, hinner, h⟩ := h
    obtain ⟨rfl, rfl⟩ := outcome_pure_eq_ok.1 h
    obtain ⟨hloops, hbody⟩ := lowered_of_lowerAll body hinner
    exact ⟨hloops, fun _ _ _ hrest => .group loc lane hbody hrest⟩

/-- A successful lowering leaves the loops as they were, and its segments are lowered statements. -/
theorem lowered_of_lowerAll : ∀ (body : List Statement) {s s' : Lowerer} {segments : List Segment},
    (lowerAll body).outcome s = (.ok segments, s') →
      s'.loops = s.loops ∧ Lowered s.loops s.supply.next body segments s'.supply.next
  | [], s, s', segments, h => by
    rw [lowerAll, outcome_pure_eq_ok] at h
    obtain ⟨rfl, rfl⟩ := h
    exact ⟨rfl, .nil _ _⟩
  | st :: rest, s, s', segments, h => by
    rw [lowerAll, outcome_bind_eq_ok] at h
    obtain ⟨first, t, hfirst, h⟩ := h
    obtain ⟨others, t', hothers, h⟩ := outcome_bind_eq_ok.1 h
    obtain ⟨rfl, rfl⟩ := outcome_pure_eq_ok.1 h
    obtain ⟨hloops, hextend⟩ := loweredFirst_of_lower st hfirst
    obtain ⟨hloops', hrest⟩ := lowered_of_lowerAll rest hothers
    rw [hloops] at hloops' hrest
    exact ⟨hloops', hextend _ _ _ hrest⟩

/-- So does a row of groups. -/
theorem loweredFirst_of_lowerGroups : ∀ (members : List Statement) (loc : Location)
    {s s' : Lowerer} {segments : List Segment},
    (lowerGroups members).outcome s = (.ok segments, s') →
      LoweredFirst s s' (.grouped loc members) segments
  | [], loc, s, s', segments, h => by
    rw [lowerGroups, outcome_pure_eq_ok] at h
    obtain ⟨rfl, rfl⟩ := h
    exact ⟨rfl, fun _ _ _ hrest => .noGroups loc hrest⟩
  | member :: rest, loc, s, s', segments, h => by
    cases member with
    | group place lane body =>
      rw [lowerGroups, outcome_bind_eq_ok] at h
      obtain ⟨inner, t, hinner, h⟩ := h
      obtain ⟨others, t', hothers, h⟩ := outcome_bind_eq_ok.1 h
      obtain ⟨rfl, rfl⟩ := outcome_pure_eq_ok.1 h
      obtain ⟨hloops, hbody⟩ := lowered_of_lowerAll body hinner
      obtain ⟨hloops', hextend⟩ := loweredFirst_of_lowerGroups rest loc hothers
      rw [hloops] at hloops' hextend
      exact ⟨hloops', fun _ _ _ hrest => .groups loc place lane hbody (hextend _ _ _ hrest)⟩
    | _ =>
      rw [lowerGroups_of_not_isGroup rfl] at h
      cases h

end

/-! ## The code of one lane -/

mutual

/-- What a lane runs of a segment, the meeting points apart: blocks are run in place, groups of
other lanes are left out. -/
def Segment.inline (lane : LaneId) : Segment → List Instruction
  | .op i => [i]
  | .concurrent _ _ body => inlineAll lane body
  | .group owner body => if owner = lane then inlineAll lane body else []

/-- What a lane runs of segments in a row. -/
def inlineAll (lane : LaneId) : List Segment → List Instruction
  | [] => []
  | s :: rest => s.inline lane ++ inlineAll lane rest

end

section Inline

variable (lane : LaneId)

@[simp]
theorem inlineAll_nil : inlineAll lane [] = [] := by
  rw [inlineAll]

@[simp]
theorem inlineAll_cons (s : Segment) (rest : List Segment) :
    inlineAll lane (s :: rest) = s.inline lane ++ inlineAll lane rest := by
  rw [inlineAll]

@[simp]
theorem inlineAll_append (first others : List Segment) :
    inlineAll lane (first ++ others) = inlineAll lane first ++ inlineAll lane others := by
  induction first with
  | nil => simp
  | cons s first ih => simp [ih]

/-- Instructions of lowering are run as they are. -/
@[simp]
theorem inlineAll_ops (code : List Instruction) : inlineAll lane (Segment.ops code) = code := by
  induction code with
  | nil => exact inlineAll_nil lane
  | cons i code ih =>
    show (Segment.op i).inline lane ++ inlineAll lane (Segment.ops code) = i :: code
    rw [ih, Segment.inline]
    rfl

/-- The body of a block is run in place. -/
@[simp]
theorem inline_concurrent (block : BlockId) (lanes : List LaneId) (body : List Segment) :
    (Segment.concurrent block lanes body).inline lane = inlineAll lane body := by
  rw [Segment.inline]

theorem inline_own_group (body : List Segment) :
    (Segment.group lane body).inline lane = inlineAll lane body := by
  rw [Segment.inline, if_pos rfl]

/-- The groups of other lanes are left out. -/
theorem inline_other_group {owner : LaneId} (h : owner ≠ lane) (body : List Segment) :
    (Segment.group owner body).inline lane = [] := by
  rw [Segment.inline, if_neg h]

end Inline

/-! ## Fresh labels -/

@[simp]
theorem labelsOf_append (a b : List Instruction) : labelsOf (a ++ b) = labelsOf a ++ labelsOf b :=
  List.filterMap_append

/-- The stems of all labels that lowering hands out. -/
def labelStems : List String := whileStems ++ ifStems ++ repeatStems

/-- Labels that are apart, with stems of lowering and with indices from `n` up to `m`. -/
structure FreshLabels (n m : Nat) (labels : List Label) : Prop where
  /-- No label occurs twice. -/
  nodup : labels.Nodup
  /-- Each label is one that lowering hands out from `n` up to `m`. -/
  index : ∀ l ∈ labels, ∃ stem k, stem ∈ labelStems ∧ n ≤ k ∧ k < m ∧ l = .indexed stem k

namespace FreshLabels

variable {n k m : Nat} {labels others : List Label}

theorem nil (n m : Nat) : FreshLabels n m [] := ⟨List.nodup_nil, by simp⟩

/-- The order of labels does not matter to their being fresh. -/
theorem perm (h : FreshLabels n m labels) (hp : labels.Perm others) : FreshLabels n m others :=
  ⟨hp.nodup_iff.1 h.nodup, fun l hl => h.index l (hp.mem_iff.2 hl)⟩

/-- Labels that are fresh from an index on are fresh from any earlier one. -/
theorem from_earlier (h : FreshLabels k m labels) (hn : n ≤ k) : FreshLabels n m labels := by
  refine ⟨h.nodup, ?_⟩
  intro l hl
  obtain ⟨stem, j, hstem, hj, hjm, rfl⟩ := h.index l hl
  exact ⟨stem, j, hstem, by omega, hjm, rfl⟩

/-- Fresh labels of ranges that follow one another are fresh together. -/
theorem append (h : FreshLabels n k labels) (h' : FreshLabels k m others) (hn : n ≤ k)
    (hm : k ≤ m) : FreshLabels n m (labels ++ others) := by
  constructor
  · refine h.nodup.append h'.nodup ?_
    intro l hl hl'
    obtain ⟨stem, j, -, -, hj, rfl⟩ := h.index l hl
    obtain ⟨stem', j', -, hj', -, heq⟩ := h'.index _ hl'
    have hsame := (Label.indexed_inj heq).2
    omega
  · intro l hl
    rcases List.mem_append.1 hl with hl | hl
    · obtain ⟨stem, j, hstem, hj, hjk, rfl⟩ := h.index l hl
      exact ⟨stem, j, hstem, hj, by omega, rfl⟩
    · obtain ⟨stem, j, hstem, hj, hjm, rfl⟩ := h'.index l hl
      exact ⟨stem, j, hstem, by omega, hjm, rfl⟩

/-- The labels of one construct. -/
theorem of_stems {stems : List String} (n : Nat) (hsub : stems ⊆ labelStems)
    (hnodup : stems.Nodup) : FreshLabels n (n + 1) (stems.map (Label.indexed · n)) := by
  refine ⟨Label.nodup_indexed hnodup n, ?_⟩
  intro l hl
  obtain ⟨stem, hstem, rfl⟩ := List.mem_map.1 hl
  exact ⟨stem, n, hsub hstem, Nat.le_refl n, Nat.lt_succ_self n, rfl⟩

end FreshLabels

section Shapes

variable (lane : LaneId) (n : Nat)

theorem labelsOf_callShape (c : Call) (purpose : Purpose) :
    labelsOf (inlineAll lane (callShape c purpose)) = [] := by
  cases purpose <;> simp [callShape] <;> rfl

theorem labelsOf_assignShape (target : String) (value : Expr) (purpose : Purpose) :
    labelsOf (inlineAll lane (assignShape target value purpose)) = [] := by
  cases purpose with
  | plain => simp [assignShape, labelsOf]
  | channelCreation => simp [assignShape, labelsOf]
  | runtime => simp [assignShape]; rfl
  | measurement => cases value <;> simp [assignShape] <;> rfl

/-- A loop defines its own two labels and those of its body. -/
theorem labelsOf_whileShape_perm (exit : LoopExit) (inner : List Segment) :
    (whileStems.map (Label.indexed · n) ++ labelsOf (inlineAll lane inner)).Perm
      (labelsOf (inlineAll lane (whileShape n exit inner))) := by
  have hshape : labelsOf (inlineAll lane (whileShape n exit inner)) =
      .indexed "while" n :: (labelsOf (inlineAll lane inner) ++ [.indexed "endwhile" n]) := by
    simp only [whileShape, inlineAll_append, inlineAll_ops, labelsOf_append]
    have hstart : labelsOf (.label (.indexed "while" n) :: exit.code (.indexed "endwhile" n)) =
        [.indexed "while" n] := by
      cases exit <;> rfl
    rw [hstart]
    rfl
  rw [hshape]
  exact (List.perm_append_singleton _ _).symm.cons _

/-- A choice defines its own two labels and those of its branches. -/
theorem labelsOf_ifShape_perm (c : Comparison) (inner otherwise : List Segment) :
    (ifStems.map (Label.indexed · n) ++ (labelsOf (inlineAll lane otherwise) ++
        labelsOf (inlineAll lane inner))).Perm
      (labelsOf (inlineAll lane (ifShape n c inner otherwise))) := by
  have hshape : labelsOf (inlineAll lane (ifShape n c inner otherwise)) =
      labelsOf (inlineAll lane otherwise) ++ .indexed "if" n ::
        (labelsOf (inlineAll lane inner) ++ [.indexed "endif" n]) := by
    simp only [ifShape, inlineAll_append, inlineAll_ops, labelsOf_append, List.append_assoc]
    rfl
  rw [hshape]
  refine List.Perm.trans (List.Perm.cons _ ?_) List.perm_middle.symm
  rw [← List.append_assoc]
  exact (List.perm_append_singleton _ _).symm

/-- A counted loop defines its own labels and those of its body. -/
theorem labelsOf_repeatShape_perm (count : UInt32) (inner : List Segment) :
    (repeatStems.map (Label.indexed · n) ++ labelsOf (inlineAll lane inner)).Perm
      (labelsOf (inlineAll lane (repeatShape n count inner))) := by
  have hshape : labelsOf (inlineAll lane (repeatShape n count inner)) =
      [.indexed "rstart" n, .indexed "rloop" n] ++ (labelsOf (inlineAll lane inner) ++
        [.indexed "rrepeat" n, .indexed "rreturn" n, .indexed "rend" n]) := by
    simp only [repeatShape, inlineAll_append, inlineAll_ops, labelsOf_append, List.append_assoc]
    rfl
  have hstems : repeatStems.map (Label.indexed · n) = [.indexed "rstart" n, .indexed "rloop" n] ++
      [.indexed "rrepeat" n, .indexed "rreturn" n, .indexed "rend" n] := rfl
  rw [hshape, hstems, List.append_assoc]
  exact List.Perm.append_left _ List.perm_append_comm

end Shapes

/-- A construct takes one index for its own labels, then those of its parts and of what follows. -/
theorem freshLabels_construct {stems : List String} {n k m : Nat} {inner whole rest : List Label}
    (hinner : n + 1 ≤ k ∧ FreshLabels (n + 1) k inner)
    (hperm : (stems.map (Label.indexed · n) ++ inner).Perm whole) (hsub : stems ⊆ labelStems)
    (hnodup : stems.Nodup) (hrest : k ≤ m ∧ FreshLabels k m rest) :
    n ≤ m ∧ FreshLabels n m (whole ++ rest) := by
  obtain ⟨hk, hinner⟩ := hinner
  obtain ⟨hm, hrest⟩ := hrest
  have hwhole := ((FreshLabels.of_stems n hsub hnodup).append hinner (Nat.le_succ n) hk).perm hperm
  exact ⟨by omega, hwhole.append hrest (by omega) hm⟩

/-- A group is either run in place or left out. -/
theorem freshLabels_group (lane owner : LaneId) {n k m : Nat} {inner others : List Segment}
    (hbody : n ≤ k ∧ FreshLabels n k (labelsOf (inlineAll lane inner)))
    (hrest : k ≤ m ∧ FreshLabels k m (labelsOf (inlineAll lane others))) :
    n ≤ m ∧ FreshLabels n m (labelsOf (inlineAll lane (.group owner inner :: others))) := by
  refine ⟨by omega, ?_⟩
  rw [inlineAll_cons, labelsOf_append]
  by_cases hown : owner = lane
  · subst hown
    rw [inline_own_group]
    exact hbody.2.append hrest.2 hbody.1 hrest.1
  · rw [inline_other_group lane hown]
    exact hrest.2.from_earlier hbody.1

/-- Lowering takes the indices from `n` up to `m`, and a lane's part of the lowered code defines no
label twice. -/
theorem Lowered.freshLabels (lane : LaneId) {loops : List LoopLabels} {n m : Nat}
    {body : List Statement} {segments : List Segment} (h : Lowered loops n body segments m) :
    n ≤ m ∧ FreshLabels n m (labelsOf (inlineAll lane segments)) := by
  induction h with
  | nil loops n => exact ⟨Nat.le_refl n, .nil n n⟩
  | call loc c purpose _ ih =>
    rw [inlineAll_append, labelsOf_append, labelsOf_callShape]
    exact ih
  | assign loc target value purpose _ ih =>
    rw [inlineAll_append, labelsOf_append, labelsOf_assignShape]
    exact ih
  | @whileDo _ n _ _ _ _ inner _ _ _ exit _ _ _ ihbody ihrest =>
    rw [inlineAll_append, labelsOf_append]
    exact freshLabels_construct ihbody (labelsOf_whileShape_perm lane n exit inner) (by decide)
      (by decide) ihrest
  | @ifElse _ n _ _ _ _ _ _ inner otherwise _ _ _ c _ _ _ _ ihelse ihbody ihrest =>
    have hbranches := ihelse.2.append ihbody.2 ihelse.1 ihbody.1
    rw [inlineAll_append, labelsOf_append]
    exact freshLabels_construct ⟨Nat.le_trans ihelse.1 ihbody.1, hbranches⟩
      (labelsOf_ifShape_perm lane n c inner otherwise) (by decide) (by decide) ihrest
  | breakLoop loc _ ih =>
    rw [inlineAll_append, labelsOf_append, inlineAll_ops]
    exact ih
  | continueLoop loc _ ih =>
    rw [inlineAll_append, labelsOf_append, inlineAll_ops]
    exact ih
  | @repeatTimes _ n _ _ _ _ inner _ _ count _ _ ihbody ihrest =>
    rw [inlineAll_append, labelsOf_append]
    exact freshLabels_construct ihbody (labelsOf_repeatShape_perm lane n count inner) (by decide)
      (by decide) ihrest
  | sequential loc _ _ ihbody ihrest =>
    rw [inlineAll_append, labelsOf_append]
    exact ⟨by omega, ihbody.2.append ihrest.2 ihbody.1 ihrest.1⟩
  | concurrent loc block lanes _ _ ihbody ihrest =>
    rw [inlineAll_cons, inline_concurrent, labelsOf_append]
    exact ⟨by omega, ihbody.2.append ihrest.2 ihbody.1 ihrest.1⟩
  | noGroups loc _ ih => exact ih
  | groups loc place owner _ _ ihbody ihrest => exact freshLabels_group lane owner ihbody ihrest
  | group loc owner _ _ ihbody ihrest => exact freshLabels_group lane owner ihbody ihrest

/-- A lane's part of lowered code has its labels apart. -/
theorem Lowered.labelsApart (lane : LaneId) {loops : List LoopLabels} {n m : Nat}
    {body : List Statement} {segments : List Segment} (h : Lowered loops n body segments m) :
    LabelsApart (inlineAll lane segments) :=
  labelsApart_of_nodup (h.freshLabels lane).2.nodup

/-! ## Where the parts of a shape stand -/

/-- The parts of a loop with a test: its body stands from `body` up to `back`. -/
structure WhilePlaced (code : List Instruction) (n : Nat) (exit : LoopExit)
    (inner : List Instruction) (p body back : Nat) : Prop where
  headAt : LabelAt code (.indexed "while" n) p
  exitAt : Stands code (p + 1) (exit.code (.indexed "endwhile" n))
  body_eq : body = p + 1 + (exit.code (.indexed "endwhile" n)).length
  innerAt : Stands code body inner
  back_eq : back = body + inner.length
  backAt : code[back]? = some (.goto (.indexed "while" n))
  tailAt : LabelAt code (.indexed "endwhile" n) (back + 1)

/-- The parts of a choice: its branches stand from `p + 1` up to `skip` and from `skip + 2` up to
`tail`. -/
structure IfPlaced (code : List Instruction) (n : Nat) (test : Comparison)
    (inner otherwise : List Instruction) (p skip tail : Nat) : Prop where
  headAt : code[p]? = some (.gotoIf test (.indexed "if" n))
  otherwiseAt : Stands code (p + 1) otherwise
  skip_eq : skip = p + 1 + otherwise.length
  skipAt : code[skip]? = some (.goto (.indexed "endif" n))
  middleAt : LabelAt code (.indexed "if" n) (skip + 1)
  innerAt : Stands code (skip + 2) inner
  tail_eq : tail = skip + 2 + inner.length
  tailAt : LabelAt code (.indexed "endif" n) tail

/-- The parts of a counted loop: its body stands from `p + 5` up to `round`. -/
structure RepeatPlaced (code : List Instruction) (n : Nat) (count : UInt32)
    (inner : List Instruction) (p round : Nat) : Prop where
  enterAt : code[p]? = some (.call (.indexed "rstart" n))
  leaveAt : code[p + 1]? = some (.goto (.indexed "rend" n))
  startAt : LabelAt code (.indexed "rstart" n) (p + 2)
  loadAt : code[p + 3]? = some (.loadRepeat count)
  headAt : LabelAt code (.indexed "rloop" n) (p + 4)
  innerAt : Stands code (p + 5) inner
  round_eq : round = p + 5 + inner.length
  roundAt : LabelAt code (.indexed "rrepeat" n) round
  againAt : code[round + 1]? = some (.repeatFrom (.indexed "rloop" n))
  exitAt : LabelAt code (.indexed "rreturn" n) (round + 2)
  backAt : code[round + 3]? = some .ret
  tailAt : LabelAt code (.indexed "rend" n) (round + 4)

section Placed

variable {code : List Instruction} {lane : LaneId} {n p : Nat}

/-- Where the code of a loop stands, its parts stand at known places. -/
theorem Stands.whileShape {exit : LoopExit} {inner : List Segment}
    (h : Stands code p (inlineAll lane (whileShape n exit inner))) :
    ∃ body back, WhilePlaced code n exit (inlineAll lane inner) p body back ∧
      p + (inlineAll lane (whileShape n exit inner)).length = back + 2 := by
  simp only [Lockstep.whileShape, inlineAll_append, inlineAll_ops] at h ⊢
  have hback := h.right
  simp only [List.length_append, List.length_cons, ← Nat.add_assoc] at hback
  refine ⟨_, _, ⟨h.left.left.head, h.left.left.tail, rfl, ?_, rfl, ?_, ?_⟩, ?_⟩
  · have hinner := h.left.right
    rwa [List.length_cons, ← Nat.add_assoc, Nat.add_right_comm] at hinner
  · rw [← hback.head]
    congr 1
    omega
  · have htail := hback.tail.head
    rw [LabelAt, ← htail]
    congr 1
    omega
  · simp only [List.length_append, List.length_cons, List.length_nil]
    omega

/-- So it is for a choice. -/
theorem Stands.ifShape {test : Comparison} {inner otherwise : List Segment}
    (h : Stands code p (inlineAll lane (ifShape n test inner otherwise))) :
    ∃ skip tail,
      IfPlaced code n test (inlineAll lane inner) (inlineAll lane otherwise) p skip tail ∧
      p + (inlineAll lane (ifShape n test inner otherwise)).length = tail + 1 := by
  simp only [Lockstep.ifShape, inlineAll_append, inlineAll_ops, List.append_assoc,
    List.cons_append, List.nil_append] at h ⊢
  have hskip := h.tail.right
  have htail := hskip.tail.tail.right
  refine ⟨_, _, ⟨h.head, h.tail.left, rfl, hskip.head, hskip.tail.head, hskip.tail.tail.left, rfl,
    htail.head⟩, ?_⟩
  simp only [List.length_append, List.length_cons, List.length_nil]
  omega

/-- So it is for a counted loop. -/
theorem Stands.repeatShape {count : UInt32} {inner : List Segment}
    (h : Stands code p (inlineAll lane (repeatShape n count inner))) :
    ∃ round, RepeatPlaced code n count (inlineAll lane inner) p round ∧
      p + (inlineAll lane (repeatShape n count inner)).length = round + 5 := by
  simp only [Lockstep.repeatShape, inlineAll_append, inlineAll_ops, List.append_assoc,
    List.cons_append, List.nil_append] at h ⊢
  have hbody := h.tail.tail.tail.tail.tail
  have hround := hbody.right
  refine ⟨_, ⟨h.head, h.tail.head, h.tail.tail.head, h.tail.tail.tail.head,
    h.tail.tail.tail.tail.head, hbody.left, rfl, hround.head, hround.tail.head,
    hround.tail.tail.head, hround.tail.tail.tail.head, hround.tail.tail.tail.tail.head⟩, ?_⟩
  simp only [List.length_append, List.length_cons, List.length_nil]
  omega

end Placed

end Lockstep
