import Lockstep.Proofs.Verification
import Lockstep.Proofs.Walking

/-!
# Relabelled code

Nothing after lowering depends on what the labels of a lane are called, only on which of them are
equal. For a renaming `ρ` that keeps labels apart: the points are placed in the same positions
(`placeBarriers_relabel`), a walk of a relabelled block goes through the same states and ends with
the same time or the same error (`Walk.run_relabel`), and so the lanes are arranged in the same way
(`arrange_relabel`).

The renaming of interest is `Label.raise`, which adds a number to the index of every label that has
one and leaves other labels as they are. It keeps all labels apart (`Label.raise_injective`).
-/

set_option autoImplicit false

namespace Lockstep

/-! ## Raised labels -/

namespace Label

/-- Add a number to the index of a label. A label without an index stays as it is. -/
def raise (o : Nat) (l : Label) : Label :=
  match l.index? with
  | some (stem, k) => indexed stem (k + o)
  | none => l

/-- The label of a stem keeps the stem and has a higher index. -/
@[simp]
theorem raise_indexed (o : Nat) (stem : String) (k : Nat) :
    (indexed stem k).raise o = indexed stem (k + o) := by
  simp [raise, index?_indexed]

@[simp]
theorem raise_zero (l : Label) : l.raise 0 = l := by
  cases h : l.index? with
  | none => simp [raise, h]
  | some index =>
    obtain ⟨stem, k⟩ := index
    rw [eq_indexed_of_index? h, raise_indexed, Nat.add_zero]

/-- The index that is read off a raised label is the raised index, and a label without an index has
none afterwards. -/
theorem index?_raise (o : Nat) (l : Label) :
    (l.raise o).index? = l.index?.map fun (stem, k) => (stem, k + o) := by
  cases h : l.index? with
  | none => simp [raise, h]
  | some index =>
    obtain ⟨stem, k⟩ := index
    simp [raise, h, index?_indexed]

/-- Labels that differ differ still when all indices are raised by the same number. -/
theorem raise_injective (o : Nat) : Function.Injective (raise o) := by
  intro a b h
  have hindex := congrArg index? h
  rw [index?_raise, index?_raise] at hindex
  cases ha : a.index? with
  | none =>
    have hb : b.index? = none := by
      rw [ha] at hindex
      exact Option.map_eq_none_iff.1 hindex.symm
    simpa [raise, ha, hb] using h
  | some index =>
    obtain ⟨stem, k⟩ := index
    rw [ha] at hindex
    obtain ⟨⟨stem', k'⟩, hb, heq⟩ := Option.map_eq_some_iff.1 hindex.symm
    simp only [Prod.mk.injEq, Nat.add_right_cancel_iff] at heq
    obtain ⟨rfl, rfl⟩ := heq
    rw [eq_indexed_of_index? ha, eq_indexed_of_index? hb]

end Label

/-! ## Renaming the labels of code -/

/-- An instruction with its label renamed. -/
def Instruction.relabel (ρ : Label → Label) : Instruction → Instruction
  | .label name => .label (ρ name)
  | .goto target => .goto (ρ target)
  | .gotoIf test target => .gotoIf test (ρ target)
  | .call target => .call (ρ target)
  | .repeatFrom target => .repeatFrom (ρ target)
  | i => i

/-- Instructions with their labels renamed. -/
def relabelCode (ρ : Label → Label) (code : List Instruction) : List Instruction :=
  code.map (Instruction.relabel ρ)

/-- A lane with its labels renamed. -/
def Lane.relabel (ρ : Label → Label) (lane : Lane) : Lane :=
  { lane with code := relabelCode ρ lane.code }

/-- A schedule with its labels renamed. -/
def Schedule.relabel (ρ : Label → Label) (schedule : Schedule) : Schedule :=
  { schedule with lanes := schedule.lanes.map (Lane.relabel ρ) }

/-- An error of a walk with its label renamed. -/
def TimingError.relabel (ρ : Label → Label) : TimingError → TimingError
  | .unresolvedCall lane target => .unresolvedCall lane (ρ target)
  | .unresolvedGoto lane target => .unresolvedGoto lane (ρ target)
  | .unresolvedRepeat lane target => .unresolvedRepeat lane (ρ target)
  | e => e

mutual

/-- A segment with its labels renamed. -/
def Segment.relabel (ρ : Label → Label) : Segment → Segment
  | .op i => .op (i.relabel ρ)
  | .concurrent block lanes body => .concurrent block lanes (relabelAll ρ body)
  | .group lane body => .group lane (relabelAll ρ body)

/-- Segments with their labels renamed. -/
def relabelAll (ρ : Label → Label) : List Segment → List Segment
  | [] => []
  | s :: rest => s.relabel ρ :: relabelAll ρ rest

end

section Code

variable (ρ : Label → Label)

@[simp]
theorem relabelCode_nil : relabelCode ρ [] = [] := rfl

@[simp]
theorem relabelCode_cons (i : Instruction) (code : List Instruction) :
    relabelCode ρ (i :: code) = i.relabel ρ :: relabelCode ρ code := rfl

@[simp]
theorem relabelCode_append (code others : List Instruction) :
    relabelCode ρ (code ++ others) = relabelCode ρ code ++ relabelCode ρ others :=
  List.map_append

@[simp]
theorem length_relabelCode (code : List Instruction) : (relabelCode ρ code).length = code.length :=
  List.length_map _

/-- Every instruction keeps its place. -/
theorem getElem?_relabelCode (code : List Instruction) (position : Nat) :
    (relabelCode ρ code)[position]? = code[position]?.map (Instruction.relabel ρ) :=
  List.getElem?_map

/-- Renaming labels makes no barriers and takes none away. -/
@[simp]
theorem Instruction.isBarrier_relabel (i : Instruction) :
    (i.relabel ρ).isBarrier = i.isBarrier := by
  cases i <;> rfl

/-- An instruction defines the new name of the label that it defined. -/
theorem Instruction.definedLabel_relabel (i : Instruction) :
    (i.relabel ρ).definedLabel = i.definedLabel.map ρ := by
  cases i <;> rfl

/-- What a renaming keeps apart is found in the same places. -/
theorem Instruction.defines_relabel {ρ : Label → Label} (hρ : Function.Injective ρ) (target : Label)
    (i : Instruction) : (i.relabel ρ).defines (ρ target) = i.defines target := by
  unfold defines
  rw [definedLabel_relabel]
  cases i.definedLabel with
  | none => rfl
  | some l => simp [hρ.eq_iff]

/-- The barriers stand where they stood. -/
theorem barriersFrom_relabelCode (position : Nat) (code : List Instruction) :
    Lane.barriersFrom position (relabelCode ρ code) = Lane.barriersFrom position code := by
  induction code generalizing position with
  | nil => rfl
  | cons i code ih =>
    simp only [relabelCode_cons, Lane.barriersFrom, Instruction.isBarrier_relabel, ih]

@[simp]
theorem Lane.barrierCount_relabel (lane : Lane) :
    (lane.relabel ρ).barrierCount = lane.barrierCount := by
  simp [barrierCount, Lane.relabel, relabelCode, List.countP_map, Function.comp_def]

end Code

/-! ## Points are placed in the same positions -/

section Placing

variable (ρ : Label → Label)

@[simp]
theorem relabelAll_append (a b : List Segment) :
    relabelAll ρ (a ++ b) = relabelAll ρ a ++ relabelAll ρ b := by
  induction a with
  | nil => rfl
  | cons s a ih => simp [relabelAll, ih]

@[simp]
theorem relabelAll_ops (code : List Instruction) :
    relabelAll ρ (Segment.ops code) = Segment.ops (relabelCode ρ code) := by
  induction code with
  | nil => rfl
  | cons i code ih =>
    simp only [Segment.ops, List.map_cons, relabelCode_cons, relabelAll, Segment.relabel] at ih ⊢
    rw [ih]

mutual

/-- The meetings of lanes do not depend on labels. -/
theorem Roster.collect_relabel (roster : Roster) :
    ∀ s : Segment, roster.collect (s.relabel ρ) = roster.collect s
  | .op i => rfl
  | .concurrent block lanes body => by
    simp only [Segment.relabel, collect]
    exact collectAll_relabelAll _ body
  | .group lane body => by
    simp only [Segment.relabel, collect]
    exact collectAll_relabelAll _ body

theorem Roster.collectAll_relabelAll (roster : Roster) : ∀ segments : List Segment,
    roster.collectAll (relabelAll ρ segments) = roster.collectAll segments
  | [] => rfl
  | s :: rest => by
    simp only [relabelAll, collectAll]
    rw [collect_relabel roster s]
    exact collectAll_relabelAll _ rest

end

namespace Placement

variable (p : Placement)

theorem relabel_startPoint (k : Nat) : (p.startPoint k).relabel ρ = p.startPoint k := by
  unfold startPoint
  split <;> rfl

/-- Points for meetings that a lane has no part in hold no label. -/
theorem relabelCode_idle (next stop : Nat) :
    relabelCode ρ (p.idle next stop) = p.idle next stop := by
  unfold idle relabelCode
  rw [List.map_flatMap]
  refine List.flatMap_congr fun k _ => ?_
  simp only [List.map_cons, List.map_nil, relabel_startPoint]
  rfl

mutual

/-- Points are placed in a segment without regard to its labels. -/
theorem emit_relabel (next : Nat) : ∀ s : Segment,
    p.emit next (s.relabel ρ) = (relabelCode ρ (p.emit next s).1, (p.emit next s).2)
  | .op i => rfl
  | .group lane body => by
    simp only [Segment.relabel, emit]
    split
    · exact emitAll_relabelAll next body
    · rfl
  | .concurrent block lanes body => by
    simp only [Segment.relabel, emit]
    cases p.roster.position? block with
    | none => rfl
    | some k =>
      simp only [emitAll_relabelAll _ body, relabelCode_append, relabelCode_cons, relabelCode_nil,
        relabel_startPoint, relabelCode_idle]
      rfl

/-- Points are placed in segments without regard to their labels: the same points, between the same
instructions with their labels renamed. -/
theorem emitAll_relabelAll (next : Nat) : ∀ segments : List Segment,
    p.emitAll next (relabelAll ρ segments) =
      (relabelCode ρ (p.emitAll next segments).1, (p.emitAll next segments).2)
  | [] => rfl
  | s :: rest => by
    simp only [relabelAll, emitAll, emit_relabel next s, emitAll_relabelAll _ rest,
      relabelCode_append]

end

end Placement

/-- Points are placed without regard to the names of labels. -/
theorem placeBarriers_relabel (initialWait : Bool) (lanes : List (LaneId × List Segment)) :
    placeBarriers initialWait (lanes.map fun lane => (lane.1, relabelAll ρ lane.2)) =
      (placeBarriers initialWait lanes).map (Lane.relabel ρ) := by
  have hroster : Roster.ofLanes (lanes.map fun lane => (lane.1, relabelAll ρ lane.2)) =
      Roster.ofLanes lanes := by
    simp only [Roster.ofLanes, List.foldl_map, Roster.collectAll_relabelAll]
  simp only [placeBarriers, hroster, List.map_map]
  apply List.map_congr_left
  intro lane _
  simp [Placement.code, Lane.relabel, Placement.emitAll_relabelAll, Placement.relabelCode_idle]

/-- Lanes make a schedule whatever their labels are called. -/
theorem Schedule.ofLanes_relabel (name : String) (lanes : List Lane) :
    ofLanes name (lanes.map (Lane.relabel ρ)) = (ofLanes name lanes).map (Schedule.relabel ρ) := by
  suffices h : ∀ s : Schedule, (s.relabel ρ).addLanes (lanes.map (Lane.relabel ρ)) =
      (s.addLanes lanes).map (Schedule.relabel ρ) from h (empty name)
  induction lanes with
  | nil => intro s; rfl
  | cons lane lanes ih =>
    intro s
    have hadd : (s.relabel ρ).addLane (lane.relabel ρ) =
        ((s.addLane lane).1, (s.addLane lane).2.relabel ρ) := by
      have hany : (s.relabel ρ).lanes.any (·.id = (lane.relabel ρ).id) =
          s.lanes.any (·.id = lane.id) := by
        simp only [Schedule.relabel, List.any_map]
        rfl
      unfold addLane
      rw [hany]
      split
      · rfl
      · simp [Schedule.relabel]
    rw [List.map_cons, addLanes, addLanes, hadd]
    rcases s.addLane lane with ⟨_ | _, after⟩
    · rfl
    · exact ih after

end Placing

/-! ## Walks go the same way -/

/-- A block with its labels renamed. -/
def Block.relabel (ρ : Label → Label) (b : Block) : Block := { b with lane := b.lane.relabel ρ }

namespace Block

variable (ρ : Label → Label) (b : Block)

@[simp]
theorem id_relabel : (b.relabel ρ).lane.id = b.lane.id := rfl

@[simp]
theorem code_relabel : (b.relabel ρ).lane.code = relabelCode ρ b.lane.code := rfl

@[simp]
theorem first_relabel : (b.relabel ρ).first = b.first := rfl

@[simp]
theorem last_relabel : (b.relabel ρ).last = b.last := rfl

@[simp]
theorem rank_relabel : (b.relabel ρ).rank = b.rank := rfl

end Block

/-- What a step leads to when labels are renamed: a walk holds no label. -/
def Walk.Step.relabel (ρ : Label → Label) : Walk.Step → Walk.Step
  | .halt result => .halt (result.mapError (TimingError.relabel ρ))
  | .next w => .next w

/-- The blocks of a lane are at the same places. -/
theorem Lane.block_relabel (ρ : Label → Label) (lane : Lane) (rank : Nat) :
    (lane.relabel ρ).block rank = (lane.block rank).relabel ρ := by
  simp [block, Block.relabel, barrierPositions, Lane.relabel, barriersFrom_relabelCode]

/-- In a mapped list, the property that is looked for is mapped back. -/
theorem lastIdx?_map {α β : Type} (p : β → Bool) (f : α → β) (as : List α) :
    lastIdx? p (as.map f) = lastIdx? (fun a => p (f a)) as := by
  induction as with
  | nil => rfl
  | cons a as ih => simp only [List.map_cons, lastIdx?, ih]

section Walking

variable {ρ : Label → Label} (hρ : Function.Injective ρ)

include hρ

/-- The first definition of a label is at the same place under its new name, since no other label
has that name. -/
theorem firstLabel?_relabel (code : List Instruction) (start stop : Nat) (target : Label) :
    firstLabel? (relabelCode ρ code) start stop (ρ target) =
      firstLabel? code start stop target := by
  simp [firstLabel?, relabelCode, ← List.map_take, ← List.map_drop, List.findIdx?_map,
    Function.comp_def, Instruction.defines_relabel hρ]

/-- So is the last one. -/
theorem lastLabel?_relabel (code : List Instruction) (start stop : Nat) (target : Label) :
    lastLabel? (relabelCode ρ code) start stop (ρ target) =
      lastLabel? code start stop target := by
  simp only [lastLabel?, relabelCode, ← List.map_take, ← List.map_drop, lastIdx?_map,
    Instruction.defines_relabel hρ]

namespace Walk

/-- At the end of a counted loop the walk finds the same head. -/
theorem stepRepeat_relabel (b : Block) (target : Label) (w : Walk) :
    stepRepeat (b.relabel ρ) (ρ target) w = (stepRepeat b target w).relabel ρ := by
  have hhead : ∀ position : Nat,
      (relabelCode ρ b.lane.code)[position]?.any (Instruction.defines (ρ target)) =
        b.lane.code[position]?.any (Instruction.defines target) := by
    intro position
    rw [getElem?_relabelCode, Option.any_map]
    simp only [Instruction.defines_relabel hρ]
  unfold stepRepeat
  cases w.frames with
  | nil => rfl
  | cons frame frames =>
    simp only [Block.code_relabel, Block.id_relabel, hhead, lastLabel?_relabel hρ]
    split
    · rfl
    · split
      · rfl
      · cases lastLabel? b.lane.code (frame.load + 1) w.cursor target <;> rfl

/-- A jump leads to the same place, or fails with the new name of its target. -/
theorem stepGoto_relabel (b : Block) (target : Label) (w : Walk) :
    stepGoto (b.relabel ρ) (ρ target) w = (stepGoto b target w).relabel ρ := by
  unfold stepGoto
  simp only [Block.code_relabel, Block.id_relabel, Block.first_relabel, Block.last_relabel,
    firstLabel?_relabel hρ]
  cases firstLabel? b.lane.code (w.cursor + 1) b.last target with
  | some position => rfl
  | none => cases firstLabel? b.lane.code b.first (w.cursor + 1) target <;> rfl

/-- What the walk does at an instruction depends on names only in its errors. -/
theorem stepAt_relabel (b : Block) (w : Walk) (i : Instruction) :
    stepAt (b.relabel ρ) w (i.relabel ρ) = (stepAt b w i).relabel ρ := by
  cases i with
  | barrier id lanes =>
    by_cases h : w.cursor = b.last <;>
      simp [Instruction.relabel, stepAt, h, Step.relabel, Except.mapError, TimingError.relabel]
  | wait =>
    simp only [Instruction.relabel, stepAt]
    split <;> rfl
  | ret =>
    simp only [Instruction.relabel, stepAt]
    cases w.returns <;> rfl
  | call target =>
    simp only [Instruction.relabel, stepAt, Block.code_relabel, Block.id_relabel,
      Block.last_relabel, firstLabel?_relabel hρ]
    cases firstLabel? b.lane.code (w.cursor + 1) b.last target <;> rfl
  | repeatFrom target => exact stepRepeat_relabel hρ b target w
  | goto target => exact stepGoto_relabel hρ b target w
  | _ => rfl

/-- A step of a relabelled block leads to the same place. -/
theorem step_relabel (b : Block) (w : Walk) : step (b.relabel ρ) w = (step b w).relabel ρ := by
  unfold step
  rw [Block.code_relabel, getElem?_relabelCode]
  cases b.lane.code[w.cursor]? with
  | some i => exact stepAt_relabel hρ b w i
  | none =>
    by_cases h : w.cursor = b.last <;>
      simp [h, Step.relabel, Except.mapError, TimingError.relabel]

/-- A walk of a relabelled block takes the same time or stops for the same reason. -/
theorem run_relabel (b : Block) (w : Walk) :
    run (b.relabel ρ) w = (run b w).mapError (TimingError.relabel ρ) := by
  -- The induction is on the walk itself: each step is the same, so the rest is.
  fun_induction run b w with
  | case1 w result h =>
    have hstep := step_relabel hρ b w
    rw [h] at hstep
    exact run_of_halt hstep
  | case2 w w' h ih =>
    have hstep := step_relabel hρ b w
    rw [h] at hstep
    rw [run_of_next hstep]
    exact ih

end Walk

/-- A block takes the same time, whatever its labels are called. -/
theorem Block.timing_relabel (b : Block) :
    (b.relabel ρ).timing = b.timing.mapError (TimingError.relabel ρ) :=
  Walk.run_relabel hρ b b.start

end Walking

/-! ## Lanes are arranged in the same way -/

section MapError

variable {ε ε' α β : Type} (g : ε → ε')

theorem mapError_bind (x : Except ε α) (f : α → Except ε β) :
    (x >>= f).mapError g = x.mapError g >>= fun a => (f a).mapError g := by
  cases x <;> rfl

/-- If an error is renamed in every call, the error of all calls is the renamed one. -/
theorem mapM_mapError (f : α → Except ε β) (xs : List α) :
    xs.mapM (fun x => (f x).mapError g) = (xs.mapM f).mapError g := by
  induction xs with
  | nil => rfl
  | cons x xs ih =>
    simp only [List.mapM_cons, mapError_bind, ih]
    rfl

end MapError

/-- Barriers are replaced in the same way if no label is in what replaces them. -/
theorem replaceBarriers_relabelCode (ρ : Label → Label) (replacements : List (List Instruction))
    (h : ∀ r ∈ replacements, relabelCode ρ r = r) (code : List Instruction) :
    replaceBarriers replacements (relabelCode ρ code) =
      relabelCode ρ (replaceBarriers replacements code) := by
  induction code generalizing replacements with
  | nil => rfl
  | cons i code ih =>
    simp only [relabelCode_cons, replaceBarriers, Instruction.isBarrier_relabel]
    split
    · cases replacements with
      | nil => exact ih [] h
      | cons r rs =>
        rw [List.forall_mem_cons] at h
        simp only [List.headD_cons, List.tail_cons, relabelCode_append, h.1, ih rs h.2]
    · rw [ih replacements h, relabelCode_cons]

/-- What takes the place of a barrier has no label. -/
theorem Decision.relabelCode_replacement (ρ : Label → Label) (index : Nat) (d : Decision) :
    relabelCode ρ (d.replacement index) = d.replacement index := by
  cases d with
  | elide => rfl
  | synchronize => rfl
  | pad delays =>
    simp only [replacement, padding]
    split <;> rfl

namespace Alignment

/-- Decisions have the same effect, since none puts a label into the code. -/
theorem apply_relabel (ρ : Label → Label) (decisions : List Decision) (lanes : List Lane) :
    apply decisions (lanes.map (Lane.relabel ρ)) =
      (apply decisions lanes).map (Lane.relabel ρ) := by
  apply List.ext_getElem?
  intro index
  have hfixed : ∀ r ∈ decisions.map (·.replacement index), relabelCode ρ r = r := by
    intro r hr
    obtain ⟨d, -, rfl⟩ := List.mem_map.1 hr
    exact d.relabelCode_replacement ρ index
  simp only [apply, List.getElem?_mapIdx, List.getElem?_map, Option.map_map]
  congr 1
  funext lane
  simp only [Function.comp_apply, Lane.relabel, replaceBarriers_relabelCode ρ _ hfixed]

theorem map_barrierCount_relabel (ρ : Label → Label) (lanes : List Lane) :
    (lanes.map (Lane.relabel ρ)).map Lane.barrierCount = lanes.map Lane.barrierCount := by
  simp [List.map_map, Function.comp_def]

theorem commonCount?_relabel (ρ : Label → Label) (lanes : List Lane) :
    commonCount? (lanes.map (Lane.relabel ρ)) = commonCount? lanes := by
  unfold commonCount?
  rw [map_barrierCount_relabel]

/-- The same ranks are dropped. -/
theorem leading_relabel (ρ : Label → Label) (lanes : List Lane) (ranks : Nat) :
    leading (lanes.map (Lane.relabel ρ)) ranks = leading lanes ranks := by
  simp only [leading, List.all_map, Function.comp_def, Lane.block_relabel]
  rfl

section Decisions

variable {ρ : Label → Label} (hρ : Function.Injective ρ)

include hρ

/-- The decision for a rank is the same, or its error with renamed labels. -/
theorem decideRank_relabel (lanes : List Lane) (rank : Nat) :
    decideRank (lanes.map (Lane.relabel ρ)) rank =
      (decideRank lanes rank).mapError (TimingError.relabel ρ) := by
  unfold decideRank
  rw [mapError_bind, List.mapM_map]
  simp only [Function.comp_def, Lane.block_relabel, Block.timing_relabel hρ]
  rw [mapM_mapError]
  rfl

/-- So are the decisions for all ranks. -/
theorem decisions_relabel (lanes : List Lane) (ranks : Nat) :
    decisions (lanes.map (Lane.relabel ρ)) ranks =
      (decisions lanes ranks).mapError (TimingError.relabel ρ) := by
  have hrank : decideRank (lanes.map (Lane.relabel ρ)) =
      fun rank => (decideRank lanes rank).mapError (TimingError.relabel ρ) :=
    funext (decideRank_relabel hρ lanes)
  unfold decisions
  simp only [leading_relabel, hrank]
  rw [mapM_mapError, mapError_bind]
  rfl

end Decisions

end Alignment

open Lockstep.Alignment

/-- What becomes of lanes when labels are renamed: the report has no label. -/
def relabelArranged (ρ : Label → Label) (arranged : Except TimingError Report × List Lane) :
    Except TimingError Report × List Lane :=
  (arranged.1.mapError (TimingError.relabel ρ), arranged.2.map (Lane.relabel ρ))

/-- Lanes are aligned without regard to the names of labels. -/
theorem alignLanes_relabel {ρ : Label → Label} (hρ : Function.Injective ρ) (lanes : List Lane) :
    alignLanes (lanes.map (Lane.relabel ρ)) = relabelArranged ρ (alignLanes lanes) := by
  unfold alignLanes
  rw [commonCount?_relabel, map_barrierCount_relabel]
  cases commonCount? lanes with
  | none => rfl
  | some ranks =>
    simp only [decisions_relabel hρ]
    cases decisions lanes ranks with
    | error e => rfl
    | ok all => exact congrArg (Prod.mk _) (apply_relabel ρ all lanes)

/-- Lanes are arranged without regard to the names of labels. -/
theorem arrange_relabel {ρ : Label → Label} (hρ : Function.Injective ρ) (options : Options)
    (lanes : List Lane) :
    arrange options (lanes.map (Lane.relabel ρ)) = relabelArranged ρ (arrange options lanes) := by
  unfold arrange
  split
  · unfold synchronizeLanes
    rw [commonCount?_relabel, map_barrierCount_relabel]
    cases commonCount? lanes with
    | none => rfl
    | some ranks => exact congrArg (Prod.mk _) (apply_relabel ρ _ lanes)
  · exact alignLanes_relabel hρ lanes

end Lockstep
