import Lockstep.Proofs.Admitted
import Lockstep.Proofs.Siblings
import Mathlib.Algebra.GroupWithZero.Nat

/-!
# What lowering emits and leaves behind

Lowering emits every statement once, and a count says only how often the hardware goes through a
loop.

* `Lowered.emits`: the indices that are taken are the loops and choices at any depth, and the number
  of instructions at any depth is the sum of what each statement needs for itself
  (`Statement.ownSize`).
* `follows_recountAll`: lowering commutes with a change of the counts of counted loops, so counts
  appear in `loadRepeat` and have a part in nothing else.
* `Lowerer.lower_emits_once` says all of this of a lowerer.

What a lowering leaves behind is the label supply: the loops around are closed, also when it is
refused deep inside of them. `Lowerer.lowerEach_eq_afresh` says that a lowerer which has lowered any
lists before, refused ones among them, is as good as a new one.
-/

set_option autoImplicit false

namespace Lockstep

/-! ## Statements and instructions at any depth -/

/-- The statements of a list at any depth. -/
def statementsIn (body : List Statement) : List Statement :=
  (visitsAll false false body).map Visit.statement

namespace Statement

/-- Whether a statement takes an index for labels of its own. -/
def takesIndex : Statement → Bool
  | whileDo _ _ _ | ifElse _ _ _ _ | repeatTimes _ _ _ => true
  | _ => false

/-- The number of instructions that a statement needs for itself, without those inside of it. -/
def ownSize : Statement → Nat
  | call _ _ purpose => if purpose = .channelCreation then 0 else 1
  | assign _ _ _ purpose => if purpose = .measurement ∨ purpose = .runtime then 1 else 0
  | breakLoop _ => 1
  | continueLoop _ => 1
  | ifElse _ _ _ _ => 4
  | whileDo _ test _ => if test.constTruth? = some true then 3 else 4
  | repeatTimes _ _ _ => 10
  | sequential _ _ => 0
  | concurrent _ _ _ _ => 0
  | grouped _ _ => 0
  | group _ _ _ => 0

end Statement

mutual

/-- The number of instructions of a segment at any depth, of whichever lane. -/
def Segment.size : Segment → Nat
  | .op _ => 1
  | .concurrent _ _ body => sizeAll body
  | .group _ body => sizeAll body

/-- The number of instructions of segments in a row. -/
def sizeAll : List Segment → Nat
  | [] => 0
  | s :: rest => s.size + sizeAll rest

end

@[simp]
theorem sizeAll_append (first others : List Segment) :
    sizeAll (first ++ others) = sizeAll first + sizeAll others := by
  induction first with
  | nil => simp [sizeAll]
  | cons s first ih => simp [sizeAll, ih, Nat.add_assoc]

@[simp]
theorem sizeAll_ops (code : List Instruction) : sizeAll (Segment.ops code) = code.length := by
  induction code with
  | nil => rfl
  | cons i code ih =>
    show (Segment.op i).size + sizeAll (Segment.ops code) = code.length + 1
    rw [ih, Segment.size, Nat.add_comm]

theorem sizeAll_callShape (loc : Location) (c : Call) (purpose : Purpose) :
    sizeAll (callShape c purpose) = (Statement.call loc c purpose).ownSize := by
  cases purpose <;> rfl

theorem sizeAll_assignShape (loc : Location) (target : String) (value : Expr) (purpose : Purpose) :
    sizeAll (assignShape target value purpose) =
      (Statement.assign loc target value purpose).ownSize := by
  cases purpose with
  | measurement => cases value <;> rfl
  | _ => rfl

/-- Only a loop with a test that is always true has no jump out of it before its body. -/
theorem LoopExit.length_code_of_ofTest {test : Expr} {loc : Location} {exit : LoopExit}
    (h : ofTest test loc = .ok exit) (target : Label) :
    (exit.code target).length = if test.constTruth? = some true then 0 else 1 := by
  unfold ofTest at h
  split at h
  · next htrue =>
    cases h
    simp [code, htrue]
  · next hfalse =>
    cases h
    simp [code, hfalse]
  · next hnone =>
    cases hc : test.comparison loc with
    | error e => simp [hc, Except.map] at h
    | ok c =>
      simp only [hc, Except.map, Except.ok.injEq] at h
      subst h
      simp [code, hnone]

/-- The size of a loop depends on its test: one that always goes on has no instruction for it. -/
theorem sizeAll_whileShape {test : Expr} {loc : Location} {exit : LoopExit}
    (h : LoopExit.ofTest test loc = .ok exit) (k : Nat) (body : List Statement)
    (inner : List Segment) :
    sizeAll (whileShape k exit inner) =
      (Statement.whileDo loc test body).ownSize + sizeAll inner := by
  simp only [whileShape, sizeAll_append, sizeAll_ops, List.length_cons, List.length_nil,
    LoopExit.length_code_of_ofTest h, Statement.ownSize]
  split <;> omega

theorem sizeAll_ifShape (k : Nat) (test : Comparison) (inner otherwise : List Segment) :
    sizeAll (ifShape k test inner otherwise) = 4 + sizeAll (otherwise ++ inner) := by
  simp only [ifShape, sizeAll_append, sizeAll_ops, List.length_cons, List.length_nil]
  omega

theorem sizeAll_repeatShape (k : Nat) (count : UInt32) (inner : List Segment) :
    sizeAll (repeatShape k count inner) = 10 + sizeAll inner := by
  simp only [repeatShape, sizeAll_append, sizeAll_ops, List.length_cons, List.length_nil]
  omega

theorem sizeAll_concurrent (loc : Location) (block : BlockId) (lanes : List LaneId)
    (body : List Statement) (inner : List Segment) :
    sizeAll [.concurrent block lanes inner] =
      (Statement.concurrent loc block lanes body).ownSize + sizeAll inner := by
  simp [sizeAll, Segment.size, Statement.ownSize]

theorem sizeAll_group (loc : Location) (lane : LaneId) (body : List Statement)
    (inner : List Segment) :
    sizeAll [.group lane inner] = (Statement.group loc lane body).ownSize + sizeAll inner := by
  simp [sizeAll, Segment.size, Statement.ownSize]

/-! ## What is emitted -/

/-- Visits that start with `n` as the next free index account for the segments that are emitted and
for `m` as the next free index then. -/
def Emits (n : Nat) (visits : List Visit) (segments : List Segment) (m : Nat) : Prop :=
  m = n + visits.countP (·.statement.takesIndex) ∧
    sizeAll segments = (visits.map (·.statement.ownSize)).sum

section Emits

variable {n k m : Nat} {visits others : List Visit} {segments more : List Segment}

/-- No visits emit nothing. -/
theorem emits_nil (n : Nat) : Emits n [] [] n := ⟨rfl, rfl⟩

/-- Visits in a row emit their segments in a row. -/
theorem Emits.append (h : Emits n visits segments k) (h' : Emits k others more m) :
    Emits n (visits ++ others) (segments ++ more) m := by
  obtain ⟨hk, hsegments⟩ := h
  obtain ⟨hm, hmore⟩ := h'
  constructor
  · rw [List.countP_append]
    omega
  · rw [sizeAll_append, hsegments, hmore, List.map_append, List.sum_append]

/-- A statement in front: its own index and its own instructions, those of the statements inside of
it, and then what is emitted for the rest. -/
theorem Emits.cons {s : Statement} {inLoop isMember : Bool} {n' : Nat} {inner : List Visit}
    {whole : List Segment} (h : Emits n' inner segments k)
    (hn : n' = n + if s.takesIndex then 1 else 0)
    (hsize : sizeAll whole = s.ownSize + sizeAll segments) (h' : Emits k others more m) :
    Emits n (⟨s, inLoop, isMember⟩ :: (inner ++ others)) (whole ++ more) m := by
  obtain ⟨hm, hsegments⟩ := h.append h'
  rw [sizeAll_append] at hsegments
  constructor
  · simp only [List.countP_cons]
    omega
  · rw [sizeAll_append, hsize, Nat.add_assoc, hsegments, List.map_cons, List.sum_cons]

/-- A grouped statement needs nothing for itself. -/
theorem emits_grouped_iff {loc : Location} {groups : List Statement} {inLoop isMember : Bool} :
    Emits n (⟨.grouped loc groups, inLoop, isMember⟩ :: visits) segments m ↔
      Emits n visits segments m := by
  simp [Emits, Statement.takesIndex, Statement.ownSize]

end Emits

/-- Lowering takes an index for each loop and each choice that it visits, and emits for every
statement what the statement needs for itself. -/
theorem Lowered.emits {loops : List LoopLabels} {n m : Nat} {body : List Statement}
    {segments : List Segment} (h : Lowered loops n body segments m) (inLoop isMember : Bool) :
    Emits n (visitsAll inLoop isMember body) segments m := by
  induction h generalizing inLoop isMember with
  | nil loops n => exact emits_nil n
  | call loc c purpose _ ih =>
    exact (emits_nil _).cons rfl (sizeAll_callShape loc c purpose) (ih inLoop isMember)
  | assign loc target value purpose _ ih =>
    exact (emits_nil _).cons rfl (sizeAll_assignShape loc target value purpose)
      (ih inLoop isMember)
  | @whileDo _ n _ _ body _ inner _ _ _ _ hexit _ _ ihbody ihrest =>
    exact (ihbody true false).cons rfl (sizeAll_whileShape hexit n body inner)
      (ihrest inLoop isMember)
  | @ifElse _ n _ _ _ _ _ _ inner otherwise _ _ _ c _ _ _ _ ihelse ihbody ihrest =>
    have hbranches := (ihelse inLoop false).append (ihbody inLoop false)
    exact hbranches.cons rfl (sizeAll_ifShape n c inner otherwise) (ihrest inLoop isMember)
  | breakLoop loc _ ih => exact (emits_nil _).cons rfl rfl (ih inLoop isMember)
  | continueLoop loc _ ih => exact (emits_nil _).cons rfl rfl (ih inLoop isMember)
  | @repeatTimes _ n _ _ _ _ inner _ _ count _ _ ihbody ihrest =>
    exact (ihbody true false).cons rfl (sizeAll_repeatShape n count inner) (ihrest inLoop isMember)
  | sequential loc _ _ ihbody ihrest =>
    exact (ihbody inLoop false).cons rfl (Nat.zero_add _).symm (ihrest inLoop isMember)
  | @concurrent _ _ _ _ body _ inner _ loc block lanes _ _ ihbody ihrest =>
    exact (ihbody inLoop false).cons rfl (sizeAll_concurrent loc block lanes body inner)
      (ihrest inLoop isMember)
  | noGroups loc _ ih => exact emits_grouped_iff.2 (ih inLoop isMember)
  | @groups _ _ _ _ body members _ inner _ loc place lane _ _ ihbody ihrest =>
    -- What is left of the members is a grouped statement again, which needs nothing for itself.
    have hrest := emits_grouped_iff.1 (ihrest inLoop isMember)
    refine emits_grouped_iff.2 ?_
    rw [Statement.innerVisits, visitsAll, Statement.innerVisits, List.cons_append,
      List.append_assoc]
    exact (ihbody inLoop false).cons rfl (sizeAll_group place lane body inner) hrest
  | @group _ _ _ _ body _ inner _ loc lane _ _ ihbody ihrest =>
    exact (ihbody inLoop false).cons rfl (sizeAll_group loc lane body inner)
      (ihrest inLoop isMember)

/-! ## The counts of counted loops -/

mutual

/-- A statement with other counts of its counted loops. -/
def Statement.recount (f : UInt32 → UInt32) : Statement → Statement
  | .call loc c purpose => .call loc c purpose
  | .assign loc target value purpose => .assign loc target value purpose
  | .whileDo loc test body => .whileDo loc test (recountAll f body)
  | .ifElse loc test body orelse => .ifElse loc test (recountAll f body) (recountAll f orelse)
  | .breakLoop loc => .breakLoop loc
  | .continueLoop loc => .continueLoop loc
  | .repeatTimes loc count body => .repeatTimes loc (f count) (recountAll f body)
  | .sequential loc body => .sequential loc (recountAll f body)
  | .concurrent loc block lanes body => .concurrent loc block lanes (recountAll f body)
  | .grouped loc groups => .grouped loc (recountAll f groups)
  | .group loc lane body => .group loc lane (recountAll f body)

/-- Statements in a row with other counts of their counted loops. -/
def recountAll (f : UInt32 → UInt32) : List Statement → List Statement
  | [] => []
  | s :: rest => s.recount f :: recountAll f rest

end

/-- An instruction with another count, if it opens a counted loop. -/
def Instruction.recount (f : UInt32 → UInt32) : Instruction → Instruction
  | .loadRepeat count => .loadRepeat (f count)
  | i => i

mutual

/-- A segment with other counts of the loops that are opened in it. -/
def Segment.recount (f : UInt32 → UInt32) : Segment → Segment
  | .op i => .op (i.recount f)
  | .concurrent block lanes body => .concurrent block lanes (recountSegments f body)
  | .group lane body => .group lane (recountSegments f body)

/-- Segments in a row with other counts of the loops that are opened in them. -/
def recountSegments (f : UInt32 → UInt32) : List Segment → List Segment
  | [] => []
  | s :: rest => s.recount f :: recountSegments f rest

end

section Shapes

variable (f : UInt32 → UInt32)

@[simp]
theorem recountSegments_append (first others : List Segment) :
    recountSegments f (first ++ others) = recountSegments f first ++ recountSegments f others := by
  induction first with
  | nil => rfl
  | cons s first ih => simp [recountSegments, ih]

/-- Other counts show in the instructions one by one. -/
@[simp]
theorem recountSegments_ops (code : List Instruction) :
    recountSegments f (Segment.ops code) = Segment.ops (code.map (Instruction.recount f)) := by
  induction code with
  | nil => rfl
  | cons i code ih =>
    simp only [Segment.ops, List.map_cons, recountSegments, Segment.recount] at ih ⊢
    rw [ih]

theorem recountSegments_callShape (c : Call) (purpose : Purpose) :
    recountSegments f (callShape c purpose) = callShape c purpose := by
  cases purpose <;> rfl

theorem recountSegments_assignShape (target : String) (value : Expr) (purpose : Purpose) :
    recountSegments f (assignShape target value purpose) = assignShape target value purpose := by
  cases purpose with
  | measurement => cases value <;> rfl
  | _ => rfl

theorem recountSegments_whileShape (k : Nat) (exit : LoopExit) (inner : List Segment) :
    recountSegments f (whileShape k exit inner) = whileShape k exit (recountSegments f inner) := by
  cases exit <;> simp [whileShape, LoopExit.code, Instruction.recount]

theorem recountSegments_ifShape (k : Nat) (test : Comparison) (inner otherwise : List Segment) :
    recountSegments f (ifShape k test inner otherwise) =
      ifShape k test (recountSegments f inner) (recountSegments f otherwise) := by
  simp [ifShape, Instruction.recount]

theorem recountSegments_repeatShape (k : Nat) (count : UInt32) (inner : List Segment) :
    recountSegments f (repeatShape k count inner) =
      repeatShape k (f count) (recountSegments f inner) := by
  simp [repeatShape, Instruction.recount]

end Shapes

/-! ### Lowering with other counts

`Lowering.Follows` with a supply that is ahead by nothing relates two lowerings with one supply. -/

open Lowering

mutual

/-- A statement with other counts is lowered to the same code with these counts. -/
theorem follows_recount (f : UInt32 → UInt32) :
    ∀ st : Statement, Follows 0 (recountSegments f) st.lower (st.recount f).lower
  | .call _ c purpose => by
    rw [Statement.recount, Statement.lower]
    exact follows_pure (recountSegments_callShape f c purpose)
  | .assign _ target value purpose => by
    rw [Statement.recount, Statement.lower]
    exact follows_pure (recountSegments_assignShape f target value purpose)
  | .whileDo loc test body => by
    rw [Statement.recount, Statement.lower, Statement.lower]
    refine (follows_lift _).bind fun exit => (follows_takeIndex whileStems).bind fun k => ?_
    have hbody := (follows_recountAll f body).withinLoop (whileLabels k)
    rw [LoopLabels.relabel_raise_zero] at hbody
    exact hbody.bind fun inner => follows_pure (recountSegments_whileShape f k exit inner)
  | .ifElse loc test body orelse => by
    rw [Statement.recount, Statement.lower, Statement.lower]
    refine (follows_lift _).bind fun c => (follows_takeIndex ifStems).bind fun k => ?_
    refine (follows_recountAll f orelse).bind fun otherwise => ?_
    refine (follows_recountAll f body).bind fun inner => ?_
    exact follows_pure (recountSegments_ifShape f k c inner otherwise)
  | .breakLoop loc => by
    rw [Statement.recount, Statement.lower]
    refine (follows_innermostLoop _ loc).bind fun labels => follows_pure ?_
    rw [LoopLabels.relabel_raise_zero]
    rfl
  | .continueLoop loc => by
    rw [Statement.recount, Statement.lower]
    refine (follows_innermostLoop _ loc).bind fun labels => follows_pure ?_
    rw [LoopLabels.relabel_raise_zero]
    rfl
  | .repeatTimes loc count body => by
    -- The count is used after the body is lowered, and nowhere but in the shape.
    rw [Statement.recount, Statement.lower, Statement.lower]
    refine (follows_takeIndex repeatStems).bind fun k => ?_
    have hbody := (follows_recountAll f body).withinLoop (repeatLabels k)
    rw [LoopLabels.relabel_raise_zero] at hbody
    exact hbody.bind fun inner => follows_pure (recountSegments_repeatShape f k count inner)
  | .sequential loc body => by
    rw [Statement.recount, Statement.lower, Statement.lower]
    exact follows_recountAll f body
  | .concurrent loc block lanes body => by
    rw [Statement.recount, Statement.lower, Statement.lower]
    exact (follows_recountAll f body).bind fun inner => follows_pure rfl
  | .grouped loc groups => by
    rw [Statement.recount, Statement.lower, Statement.lower]
    exact follows_recountGroups f groups
  | .group loc lane body => by
    rw [Statement.recount, Statement.lower, Statement.lower]
    exact (follows_recountAll f body).bind fun inner => follows_pure rfl

/-- With other counts, statements are lowered to the same segments with these counts, or refused in
the same way. -/
theorem follows_recountAll (f : UInt32 → UInt32) : ∀ body : List Statement,
    Follows 0 (recountSegments f) (lowerAll body) (lowerAll (recountAll f body))
  | [] => by
    rw [recountAll, lowerAll]
    exact follows_pure rfl
  | st :: rest => by
    rw [recountAll, lowerAll, lowerAll]
    refine (follows_recount f st).bind fun first => ?_
    refine (follows_recountAll f rest).bind fun others => ?_
    exact follows_pure (recountSegments_append f first others)

/-- So is a row of groups. -/
theorem follows_recountGroups (f : UInt32 → UInt32) : ∀ members : List Statement,
    Follows 0 (recountSegments f) (lowerGroups members) (lowerGroups (recountAll f members))
  | [] => by
    rw [recountAll, lowerGroups]
    exact follows_pure rfl
  | member :: rest => by
    rw [recountAll]
    cases member with
    | group loc lane body =>
      rw [Statement.recount, lowerGroups, lowerGroups]
      refine (follows_recountAll f body).bind fun inner => ?_
      exact (follows_recountGroups f rest).bind fun others => follows_pure rfl
    | _ => exact follows_lowerGroups_of_not_isGroup rfl rfl rfl rest (recountAll f rest)

end

/-- Results that a function makes equal are one refusal or two successes that it makes equal. -/
theorem alike_of_map_eq {α β : Type} {f : α → β} {x y : Except LoweringError α}
    (h : x.map f = y.map f) :
    (∃ e, x = .error e ∧ y = .error e) ∨ ∃ a b, x = .ok a ∧ y = .ok b ∧ f a = f b := by
  cases x with
  | error e =>
    cases y with
    | error e' =>
      obtain rfl := Except.error.inj h
      exact .inl ⟨e, rfl, rfl⟩
    | ok b => cases h
  | ok a =>
    cases y with
    | error e' => cases h
    | ok b => exact .inr ⟨a, b, rfl, rfl, Except.ok.inj h⟩

/-- Statements that differ in the counts of their counted loops at most. -/
def SameButCounts (body body' : List Statement) : Prop :=
  recountAll (fun _ => 0) body = recountAll (fun _ => 0) body'

namespace Lowerer

/-- A body with other counts is lowered to the same code with these counts, from the same labels. -/
theorem lower_recountAll (f : UInt32 → UInt32) (s : Lowerer) (body : List Statement) :
    s.lower (recountAll f body) = ((s.lower body).1.map (recountSegments f), (s.lower body).2) := by
  have h := follows_recountAll f body s
  rw [raise_zero, raise_zero] at h
  exact h

/-- Lowering emits each statement once. It takes an index for each loop and each choice at any depth
and emits for every statement at any depth what the statement needs for itself. Counts have no part
in this: statements that differ in counts only are refused in the same way, or are lowered to
segments that differ only in the counts with which loops are opened. -/
theorem lower_emits_once (s : Lowerer) (body : List Statement) :
    (∀ segments after, s.lower body = (.ok segments, after) →
      after.supply.next = s.supply.next + (statementsIn body).countP Statement.takesIndex ∧
      sizeAll segments = ((statementsIn body).map Statement.ownSize).sum) ∧
    ∀ body', SameButCounts body body' →
      (s.lower body).2 = (s.lower body').2 ∧
      ((∃ e, (s.lower body).1 = .error e ∧ (s.lower body').1 = .error e) ∨
        ∃ segments segments', (s.lower body).1 = .ok segments ∧ (s.lower body').1 = .ok segments' ∧
          recountSegments (fun _ => 0) segments = recountSegments (fun _ => 0) segments') := by
  constructor
  · intro segments after h
    obtain ⟨-, hlowered⟩ := lowered_of_lowerAll body h
    obtain ⟨hnext, hsize⟩ := hlowered.emits false false
    rw [statementsIn, List.countP_map, List.map_map]
    exact ⟨hnext, hsize⟩
  · intro body' hsame
    have hzero := lower_recountAll (fun _ => 0) s body
    rw [hsame, lower_recountAll] at hzero
    obtain ⟨hresult, hafter⟩ := Prod.mk.inj hzero
    obtain ⟨e, he', he⟩ | ⟨segments', segments, hsegments', hsegments, heq⟩ :=
      alike_of_map_eq hresult
    · exact ⟨hafter.symm, .inl ⟨e, he, he'⟩⟩
    · exact ⟨hafter.symm, .inr ⟨segments, segments', hsegments, hsegments', heq.symm⟩⟩

/-- Counted loops with the given counts, with a loop, a choice, a block and a group between them. -/
def countedRounds (outer inner : UInt32) : List Statement :=
  [.repeatTimes .unknown outer
    [.whileDo .unknown (.bool true)
      [.ifElse .unknown (.var "m") [.breakLoop .unknown]
        [.concurrent .unknown ⟨0⟩ [⟨0⟩, ⟨1⟩]
          [.grouped .unknown
            [.group .unknown ⟨0⟩ [.repeatTimes .unknown inner [.pulse "X" (.clamp 10)]]]]]]]]

/-- With 2 and 3 rounds, 29 instructions are emitted and 4 indices taken. With 4000 rounds and none
the instructions are the same up to the counts. -/
theorem countedRounds_emitted_once :
    ∃ segments after, (new .fresh).lower (countedRounds 2 3) = (.ok segments, after) ∧
      after.supply.next = 4 ∧ sizeAll segments = 29 ∧
      ∃ segments', ((new .fresh).lower (countedRounds 4000 0)).1 = .ok segments' ∧
        recountSegments (fun _ => 0) segments = recountSegments (fun _ => 0) segments' := by
  obtain ⟨hemits, hcounts⟩ := lower_emits_once (new .fresh) (countedRounds 2 3)
  have hlower : (new .fresh).lower (countedRounds 2 3) = (.ok _, _) := rfl
  obtain ⟨hnext, hsize⟩ := hemits _ _ hlower
  obtain ⟨-, ⟨e, he, -⟩ | ⟨segments, segments', hsegments, hsegments', hsame⟩⟩ :=
    hcounts (countedRounds 4000 0) rfl
  · rw [hlower] at he
    cases he
  · rw [hlower] at hsegments
    obtain rfl := Except.ok.inj hsegments
    exact ⟨_, _, hlower, hnext, hsize, segments', hsegments', hsame⟩

end Lowerer

/-! ## One lowerer for several lists -/

namespace Lowerer

/-- Lower lists one after the other with one lowerer. Each result comes with the label supply that
is left. -/
def lowerEach (s : Lowerer) :
    List (List Statement) → List (Except LoweringError (List Segment) × LabelSupply)
  | [] => []
  | body :: rest =>
    ((s.lower body).1, (s.lower body).2.supply) :: (s.lower body).2.lowerEach rest

/-- Lower lists one after the other, each with a new lowerer on the label supply that is left. -/
def lowerEachAfresh (supply : LabelSupply) :
    List (List Statement) → List (Except LoweringError (List Segment) × LabelSupply)
  | [] => []
  | body :: rest =>
    (((new supply).lower body).1, ((new supply).lower body).2.supply) ::
      lowerEachAfresh ((new supply).lower body).2.supply rest

/-- Outside of all loops a lowering leaves nothing but the label supply, whatever its result. -/
theorem lower_new (supply : LabelSupply) (body : List Statement) :
    ((new supply).lower body).2 = new ((new supply).lower body).2.supply := by
  obtain ⟨-, hloops⟩ := answers_lowerAll body (s := new supply) rfl
  exact congrArg (Lowerer.mk ((new supply).lower body).2.supply) hloops

/-- Lists that are lowered in turn with one lowerer have the results and leave the label supplies
that they have and leave with new lowerers, also after lists that were refused. -/
theorem lowerEach_eq_afresh (supply : LabelSupply) (bodies : List (List Statement)) :
    (new supply).lowerEach bodies = lowerEachAfresh supply bodies := by
  induction bodies generalizing supply with
  | nil => rfl
  | cons body rest ih =>
    rw [lowerEach, lowerEachAfresh, ← ih, ← lower_new]

/-- A list that is refused inside of two loops takes its indices and leaves no loop for the stray
`break` of the next list. -/
example (place : Location) :
    (new .fresh).lowerEach
      [[.repeatTimes .unknown 2 [.whileDo .unknown (.var "m") [.grouped .unknown
        [.breakLoop place]]]], [.breakLoop place]] =
      [(.error (.invalidGroup place), ⟨2⟩), (.error (.noEnclosingLoop "break" place), ⟨2⟩)] := rfl

end Lowerer

end Lockstep
