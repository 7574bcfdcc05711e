import Lockstep.Proofs.Admitted
import Lockstep.Proofs.Arrangement
import Lockstep.Proofs.Compiled

/-!
# Verified lanes

The checks at the end of a compilation never find anything. The labels of a lane are apart and every
jump finds its label in its own lane (`LabelsSound`): jumps of lowered code go to labels of that
code or of a loop around it (`Lowered.jumpsWithin`), a group is left out as a whole, and the later
passes add only what is silent. Barriers are left only in lanes that could not be aligned, which are
not checked for them. So the outcome of a pipeline is that of its first pass
(`Compiler.resolve_eq`).
-/

set_option autoImplicit false

namespace Lockstep

/-! ## The label supply never refuses -/

theorem Compiler.lowerLanes_ne_label (supply : LabelSupply) (bodies : List LaneBody)
    (e : LabelError) : (lowerLanes supply bodies).1 ≠ .error (.label e) := by
  induction bodies generalizing supply with
  | nil =>
    intro h
    cases h
  | cons body bodies ih =>
    unfold lowerLanes
    split
    · rename_i e' s hlower
      have hne := lowerAll_ne_label body.body (Lowerer.new supply) e
      have houtcome : (lowerAll body.body).outcome (Lowerer.new supply) = (.error e', s) := hlower
      rw [houtcome] at hne
      intro h
      cases h
      exact hne rfl
    · rename_i segments s hlower
      have hne := ih s.supply
      split
      · rename_i e' supply' hrest
        rw [hrest] at hne
        intro h
        cases h
        exact hne rfl
      · intro h
        cases h

/-! ## Jumps stay in their lane -/

@[simp]
theorem targetsOf_append (a b : List Instruction) :
    targetsOf (a ++ b) = targetsOf a ++ targetsOf b :=
  List.filterMap_append

/-- Jumps of the code go to labels of it or to the labels `outer`. -/
def JumpsWithin (outer : List Label) (code : List Instruction) : Prop :=
  ∀ t ∈ targetsOf code, t ∈ labelsOf code ∨ t ∈ outer

/-- Where jumps out of the bodies of loops go. -/
def loopExits (loops : List LoopLabels) : List Label :=
  loops.flatMap fun labels => [labels.continueTo, labels.breakTo]

namespace JumpsWithin

variable {outer : List Label} {code others : List Instruction}

/-- Code without jumps has none that leave it. -/
theorem of_targetsOf_nil (h : targetsOf code = []) : JumpsWithin outer code := by
  intro t ht
  rw [h] at ht
  cases ht

/-- Jumps of code in a row may go from one part to the other. -/
theorem append (h : JumpsWithin outer code) (h' : JumpsWithin outer others) :
    JumpsWithin outer (code ++ others) := by
  intro t ht
  rw [targetsOf_append, List.mem_append] at ht
  rw [labelsOf_append, List.mem_append]
  rcases ht with ht | ht
  · exact (h t ht).imp_left .inl
  · exact (h' t ht).imp_left .inr

/-- A construct has labels of its own, and jumps of its parts may go to those. -/
theorem construct {own : List Label} {inner whole : List Instruction} (around : List Label)
    (hinner : JumpsWithin (around ++ outer) inner) (haround : around ⊆ own)
    (htargets : targetsOf whole ⊆ own ++ targetsOf inner)
    (hlabels : (own ++ labelsOf inner).Perm (labelsOf whole)) : JumpsWithin outer whole := by
  intro t ht
  rw [← hlabels.mem_iff, List.mem_append]
  rcases List.mem_append.1 (htargets ht) with hown | ht
  · exact .inl (.inl hown)
  · rcases hinner t ht with hlabel | hout
    · exact .inl (.inr hlabel)
    · rcases List.mem_append.1 hout with hmem | hmem
      · exact .inl (.inl (haround hmem))
      · exact .inr hmem

theorem group {lane owner : LaneId} {inner : List Segment}
    (h : JumpsWithin outer (inlineAll lane inner)) :
    JumpsWithin outer ((Segment.group owner inner).inline lane) := by
  by_cases howner : owner = lane
  · subst howner
    rwa [inline_own_group]
  · rw [inline_other_group lane howner]
    exact of_targetsOf_nil rfl

end JumpsWithin

section Shapes

variable (lane : LaneId) (n : Nat)

theorem targetsOf_callShape (c : Call) (purpose : Purpose) :
    targetsOf (inlineAll lane (callShape c purpose)) = [] := by
  cases purpose <;> simp [callShape] <;> rfl

theorem targetsOf_assignShape (target : String) (value : Expr) (purpose : Purpose) :
    targetsOf (inlineAll lane (assignShape target value purpose)) = [] := by
  cases purpose with
  | plain => simp [assignShape, targetsOf]
  | channelCreation => simp [assignShape, targetsOf]
  | runtime => simp [assignShape]; rfl
  | measurement => cases value <;> simp [assignShape] <;> rfl

theorem targetsOf_whileShape (exit : LoopExit) (inner : List Segment) :
    targetsOf (inlineAll lane (whileShape n exit inner)) ⊆
      whileStems.map (Label.indexed · n) ++ targetsOf (inlineAll lane inner) := by
  have hstart : targetsOf (.label (.indexed "while" n) :: exit.code (.indexed "endwhile" n)) ⊆
      [.indexed "endwhile" n] := by
    cases exit with
    | never => exact List.nil_subset _
    | always | when test => exact List.Subset.refl _
  simp only [whileShape, inlineAll_append, inlineAll_ops, targetsOf_append]
  intro t ht
  rcases List.mem_append.1 ht with ht | ht
  · rcases List.mem_append.1 ht with ht | ht
    · have hend := hstart ht
      simp_all [whileStems]
    · exact List.mem_append_right _ ht
  · have hback : t = .indexed "while" n := by simpa [targetsOf, Instruction.target] using ht
    simp [whileStems, hback]

theorem targetsOf_ifShape (c : Comparison) (inner otherwise : List Segment) :
    targetsOf (inlineAll lane (ifShape n c inner otherwise)) ⊆
      ifStems.map (Label.indexed · n) ++
        targetsOf (inlineAll lane otherwise ++ inlineAll lane inner) := by
  simp only [ifShape, inlineAll_append, inlineAll_ops, targetsOf_append]
  intro t ht
  simp only [targetsOf, Instruction.target, List.filterMap_cons, List.filterMap_nil,
    List.mem_append, List.mem_cons, List.not_mem_nil, or_false] at ht
  simp only [ifStems, targetsOf, List.map_cons, List.map_nil, List.mem_append, List.mem_cons,
    List.not_mem_nil, or_false]
  tauto

theorem targetsOf_repeatShape (count : UInt32) (inner : List Segment) :
    targetsOf (inlineAll lane (repeatShape n count inner)) ⊆
      repeatStems.map (Label.indexed · n) ++ targetsOf (inlineAll lane inner) := by
  simp only [repeatShape, inlineAll_append, inlineAll_ops, targetsOf_append]
  intro t ht
  simp only [targetsOf, Instruction.target, List.filterMap_cons, List.filterMap_nil,
    List.mem_append, List.mem_cons, List.not_mem_nil, or_false] at ht
  simp only [repeatStems, targetsOf, List.map_cons, List.map_nil, List.mem_append, List.mem_cons,
    List.not_mem_nil, or_false]
  tauto

end Shapes

/-- Jumps of a lane's part of lowered code go to labels of it or of a loop around it. -/
theorem Lowered.jumpsWithin (lane : LaneId) {loops : List LoopLabels} {n m : Nat}
    {body : List Statement} {segments : List Segment} (h : Lowered loops n body segments m) :
    JumpsWithin (loopExits loops) (inlineAll lane segments) := by
  -- A loop adds its own labels to those around its body, and has them in its code.
  induction h with
  | nil loops n => exact .of_targetsOf_nil (by simp [targetsOf])
  | call loc c purpose _ ih =>
    rw [inlineAll_append]
    exact (JumpsWithin.of_targetsOf_nil (targetsOf_callShape lane c purpose)).append ih
  | assign loc target value purpose _ ih =>
    rw [inlineAll_append]
    exact (JumpsWithin.of_targetsOf_nil
      (targetsOf_assignShape lane target value purpose)).append ih
  | @whileDo _ n _ _ _ _ inner _ _ _ exit _ _ _ ihbody ihrest =>
    rw [inlineAll_append]
    have hwhole := ihbody.construct [.indexed "while" n, .indexed "endwhile" n]
      (List.Subset.refl _) (targetsOf_whileShape lane n exit inner)
      (labelsOf_whileShape_perm lane n exit inner)
    exact hwhole.append ihrest
  | @ifElse _ n _ _ _ _ _ _ inner otherwise _ _ _ c _ _ _ _ ihelse ihbody ihrest =>
    rw [inlineAll_append]
    have hlabels := labelsOf_ifShape_perm lane n c inner otherwise
    rw [← labelsOf_append] at hlabels
    have hwhole := (ihelse.append ihbody).construct [] (List.nil_subset _)
      (targetsOf_ifShape lane n c inner otherwise) hlabels
    exact hwhole.append ihrest
  | breakLoop loc _ ih =>
    rw [inlineAll_append, inlineAll_ops]
    refine JumpsWithin.append ?_ ih
    intro t ht
    refine .inr ?_
    simp_all [targetsOf, Instruction.target, loopExits]
  | continueLoop loc _ ih =>
    rw [inlineAll_append, inlineAll_ops]
    refine JumpsWithin.append ?_ ih
    intro t ht
    refine .inr ?_
    simp_all [targetsOf, Instruction.target, loopExits]
  | @repeatTimes _ n _ _ _ _ inner _ _ count _ _ ihbody ihrest =>
    rw [inlineAll_append]
    have hwhole := ihbody.construct [.indexed "rrepeat" n, .indexed "rreturn" n]
      (by simp [repeatStems]) (targetsOf_repeatShape lane n count inner)
      (labelsOf_repeatShape_perm lane n count inner)
    exact hwhole.append ihrest
  | sequential loc _ _ ihbody ihrest =>
    rw [inlineAll_append]
    exact ihbody.append ihrest
  | concurrent loc block lanes _ _ ihbody ihrest =>
    rw [inlineAll_cons, inline_concurrent]
    exact ihbody.append ihrest
  | noGroups loc _ ih => exact ih
  | groups loc place owner _ _ ihbody ihrest =>
    rw [inlineAll_cons]
    exact ihbody.group.append ihrest
  | group loc owner _ _ ihbody ihrest =>
    rw [inlineAll_cons]
    exact ihbody.group.append ihrest

/-! ## Sound labels -/

/-- Code whose labels are apart and that has a label for each of its jumps. -/
structure LabelsSound (code : List Instruction) : Prop where
  nodup : (labelsOf code).Nodup
  defined : targetsOf code ⊆ labelsOf code

theorem LabelsSound.count_eq_one {code : List Instruction} (h : LabelsSound code) {t : Label}
    (ht : t ∈ targetsOf code) : (labelsOf code).count t = 1 :=
  List.count_eq_one_of_mem h.nodup (h.defined ht)

/-- What is silent has no part in the labels. -/
theorem labelsSound_visible_iff {code : List Instruction} :
    LabelsSound (visible code) ↔ LabelsSound code := by
  have hlabels : labelsOf (visible code) = labelsOf code := by
    rw [labelsOf, visible, List.filterMap_filter]
    congr 1
    funext i
    cases i <;> rfl
  have htargets : targetsOf (visible code) = targetsOf code := by
    rw [targetsOf, visible, List.filterMap_filter]
    congr 1
    funext i
    cases i <;> rfl
  constructor
  · rintro ⟨hnodup, hdefined⟩
    rw [hlabels] at hnodup hdefined
    rw [htargets] at hdefined
    exact ⟨hnodup, hdefined⟩
  · rintro ⟨hnodup, hdefined⟩
    constructor
    · rwa [hlabels]
    · rwa [hlabels, htargets]

/-- The labels of a lane are sound after lowering. -/
theorem Lowered.labelsSound (lane : LaneId) {n m : Nat} {body : List Statement}
    {segments : List Segment} (h : Lowered [] n body segments m) :
    LabelsSound (inlineAll lane segments) where
  nodup := (h.freshLabels lane).2.nodup
  defined t ht := by
    rcases h.jumpsWithin lane t ht with hlabel | hout
    · exact hlabel
    · cases hout

/-- Lanes with the visible code of lanes with sound labels have sound labels. -/
theorem labelsSound_of_visibleLanes {lanes out : List Lane}
    (h : visibleLanes out = visibleLanes lanes) (hsound : ∀ lane ∈ lanes, LabelsSound lane.code) :
    ∀ lane ∈ out, LabelsSound lane.code := by
  intro lane hlane
  have hmem : (lane.id, visible lane.code) ∈ visibleLanes lanes := by
    rw [← h]
    exact List.mem_map.2 ⟨lane, hlane, rfl⟩
  obtain ⟨original, horiginal, heq⟩ := List.mem_map.1 hmem
  rw [← labelsSound_visible_iff, ← (Prod.mk.inj heq).2, labelsSound_visible_iff]
  exact hsound original horiginal

/-- Lowered lanes have sound labels, with points or without. -/
theorem Compiler.labelsSound_placeBarriers {bodies : List LaneBody} {supply supply' : LabelSupply}
    {lanes : List (LaneId × List Segment)} (h : lowerLanes supply bodies = (.ok lanes, supply'))
    (initialWait : Bool) : ∀ lane ∈ placeBarriers initialWait lanes, LabelsSound lane.code := by
  intro placed hplaced
  have hmem : (placed.id, visible placed.code) ∈ visibleLanes (placeBarriers initialWait lanes) :=
    List.mem_map.2 ⟨placed, hplaced, rfl⟩
  rw [visibleLanes_placeBarriers] at hmem
  obtain ⟨lane, hlane, heq⟩ := List.mem_map.1 hmem
  obtain ⟨_, -, -, n, m, hlowered⟩ := exists_lowered_of_mem h hlane
  rw [← labelsSound_visible_iff, ← (Prod.mk.inj heq).2, labelsSound_visible_iff]
  exact hlowered.labelsSound _

/-! ## The checks pass -/

/-- Sound labels pass the check. -/
theorem Lane.checkLabels_of_labelsSound {lane : Lane} (h : LabelsSound lane.code) :
    ∃ summary, lane.checkLabels = .ok summary := by
  have hdup : firstRepeated? [] lane.definedLabels = none :=
    firstRepeated?_eq_none_iff.2 ⟨h.nodup, fun _ _ => List.not_mem_nil⟩
  have hfind : lane.targets.find? (· ∉ lane.definedLabels) = none := by
    rw [List.find?_eq_none]
    intro t ht hnot
    exact of_decide_eq_true hnot (h.defined ht)
  unfold checkLabels
  rw [hdup]
  simp only [hfind]
  exact ⟨_, rfl⟩

theorem checkLabels_of_labelsSound {lanes : List Lane}
    (h : ∀ lane ∈ lanes, LabelsSound lane.code) : ∃ summary, checkLabels lanes = .ok summary := by
  obtain ⟨summaries, hall⟩ :=
    exists_mapM_eq_ok fun lane hlane => Lane.checkLabels_of_labelsSound (h lane hlane)
  unfold checkLabels
  rw [hall]
  exact ⟨_, rfl⟩

theorem remainingBarrier?_eq_none {lanes : List Lane}
    (h : ∀ lane ∈ lanes, lane.barrierCount = 0) : remainingBarrier? lanes = none := by
  induction lanes with
  | nil => rfl
  | cons lane lanes ih =>
    rw [List.forall_mem_cons] at h
    rw [remainingBarrier?, if_pos h.1, ih h.2]

/-- The verification of lanes that are free of barriers if they were aligned comes down to the check
of their labels. -/
theorem Pipeline.run_verification (stage : Stage)
    (hfree : stage.properties.report.any Report.isMismatch = false →
      ∀ lane ∈ stage.schedule.lanes, lane.barrierCount = 0) :
    run stage [.verifyBarriers, .verifyLabels] =
      match checkLabels stage.schedule.lanes with
      | .ok summary =>
        (none, { stage with properties := { stage.properties with labels := some summary } })
      | .error e => (some e, stage) := by
  have hbarriers : run stage [.verifyBarriers, .verifyLabels] = run stage [.verifyLabels] := by
    rw [run]
    -- Lanes that could not be aligned are not checked for barriers.
    split
    · rename_i happlies
      have hreport : stage.properties.report.any Report.isMismatch = false := by
        simpa [Pass.applies] using happlies
      simp only [Pass.run, remainingBarrier?_eq_none (hfree hreport)]
    · rfl
  rw [hbarriers]
  simp only [run, Pass.applies, Pass.run, if_true]
  cases checkLabels stage.schedule.lanes <;> rfl

/-! ## The outcome of a pipeline -/

/-- What the options make of lanes with barriers. -/
def arrange (options : Options) (lanes : List Lane) : Except TimingError Report × List Lane :=
  if options.level = 0 then (.ok (synchronizeLanes lanes).1, (synchronizeLanes lanes).2)
  else alignLanes lanes

section Arrange

variable {options : Options} {lanes out : List Lane} {report : Report}

/-- Nothing that is visible is changed, whichever way lanes are arranged. -/
theorem visibleLanes_arrange (options : Options) (lanes : List Lane) :
    visibleLanes (arrange options lanes).2 = visibleLanes lanes := by
  unfold arrange
  split
  · exact visibleLanes_synchronizeLanes lanes
  · exact visibleLanes_alignLanes lanes

/-- Lanes are left alone because their numbers of barriers differ, or decisions are put into effect
that are as many as the barriers of each lane. -/
theorem arrange_cases (h : arrange options lanes = (.ok report, out)) :
    (Alignment.commonCount? lanes = none ∧ out = lanes ∧
        report = .mismatched (lanes.map Lane.barrierCount)) ∨
      ∃ all, Alignment.commonCount? lanes = some all.length ∧
        out = Alignment.apply all lanes ∧ report = Alignment.report all := by
  cases hcommon : Alignment.commonCount? lanes with
  | none =>
    refine .inl ⟨rfl, ?_⟩
    simp only [arrange, synchronizeLanes, alignLanes, hcommon, ite_self] at h
    cases h
    exact ⟨rfl, rfl⟩
  | some ranks =>
    refine .inr ?_
    unfold arrange at h
    split at h
    · simp only [synchronizeLanes, hcommon] at h
      cases h
      exact ⟨_, by rw [List.length_replicate], rfl, rfl⟩
    · obtain ⟨all, hall, hout, hreport⟩ := Alignment.exists_decisions hcommon h
      exact ⟨all, by rw [Alignment.length_decisions hall], hout, hreport⟩

/-- If there is no mismatch, all barriers are gone. -/
theorem barrierCount_of_arrange (h : arrange options lanes = (.ok report, out))
    (hmatch : report.isMismatch = false) : ∀ lane ∈ out, lane.barrierCount = 0 := by
  intro lane hlane
  rcases arrange_cases h with ⟨-, -, rfl⟩ | ⟨all, -, rfl, -⟩
  · cases hmatch
  · exact barrierCount_of_mem_apply hlane

end Arrange

/-- A pipeline starts by arranging the lanes. -/
theorem Pipeline.run_ofOptions (options : Options) (stage : Stage) :
    run stage (ofOptions options) =
      match arrange options stage.schedule.lanes with
      | (.ok report, lanes) =>
        run (Pass.settle stage lanes report)
          (if options.verify then [.verifyBarriers, .verifyLabels] else [])
      | (.error e, lanes) =>
        (some (.timing e), { stage with schedule := { stage.schedule with lanes } }) := by
  unfold ofOptions arrange
  split
  · simp [run, Pass.applies, Pass.run]
  · simp only [run, Pass.applies, Pass.run, if_true]
    rcases alignLanes stage.schedule.lanes with ⟨_ | _, lanes⟩ <;> rfl

/-- The outcome of a pipeline is that of its first pass, unless it verifies and the labels of the
arranged lanes are refused. -/
theorem Compiler.resolve_eq_checked (options : Options) (schedule : Schedule) :
    resolve options schedule =
      match arrange options schedule.lanes with
      | (.error e, lanes) => (.error (.timing e), { schedule with lanes })
      | (.ok report, lanes) =>
        match checkLabels lanes with
        | .error e =>
          (if options.verify then .error e else .ok (some report), { schedule with lanes })
        | .ok _ => (.ok (some report), { schedule with lanes }) := by
  unfold resolve
  rw [Pipeline.run_ofOptions]
  rcases harrange : arrange options schedule.lanes with ⟨result, lanes⟩
  cases result with
  | error e => rfl
  | ok report =>
    cases options.verify with
    | false =>
      simp only [Bool.false_eq_true, if_false]
      cases checkLabels lanes <;> rfl
    | true =>
      have hfree : report.isMismatch = false → ∀ lane ∈ lanes, lane.barrierCount = 0 :=
        barrierCount_of_arrange harrange
      have hrun := Pipeline.run_verification
        (Pass.settle ⟨schedule, { function := some schedule.name }⟩ lanes report) hfree
      simp only [if_true, hrun]
      simp only [Pass.settle]
      cases checkLabels lanes <;> rfl

/-- The outcome of the pipeline on lanes with sound labels is that of its first pass. -/
theorem Compiler.resolve_eq (options : Options) {schedule : Schedule}
    (hsound : ∀ lane ∈ schedule.lanes, LabelsSound lane.code) :
    resolve options schedule =
      match arrange options schedule.lanes with
      | (.ok report, lanes) => (.ok (some report), { schedule with lanes })
      | (.error e, lanes) => (.error (.timing e), { schedule with lanes }) := by
  obtain ⟨summary, hlabels⟩ := checkLabels_of_labelsSound
    (labelsSound_of_visibleLanes (visibleLanes_arrange options schedule.lanes) hsound)
  rw [resolve_eq_checked]
  rcases harrange : arrange options schedule.lanes with ⟨_ | report, lanes⟩
  · rfl
  · rw [harrange] at hlabels
    simp only [hlabels]

/-! ## Compiled functions -/

namespace Compiler

/-- After lowering, only the lanes of the schedule and their timing can be refused. -/
theorem assemble_eq_error {options : Options} {name : String} {bodies : List LaneBody}
    {supply supply' : LabelSupply} {lanes : List (LaneId × List Segment)} {e : CompileError}
    (hlower : lowerLanes supply bodies = (.ok lanes, supply'))
    (h : assemble options name lanes = .error e) :
    (∃ e', e = .schedule e') ∨ ∃ e', e = .timing e' := by
  unfold assemble at h
  split at h
  · rename_i e' _
    exact .inl ⟨e', (Except.error.inj h).symm⟩
  · rename_i schedule hschedule
    have hsound := labelsSound_placeBarriers hlower options.initialWait
    rw [← Schedule.lanes_of_ofLanes hschedule] at hsound
    rw [resolve_eq options hsound] at h
    rcases harrange : arrange options schedule.lanes with ⟨e' | report, arranged⟩
    · rw [harrange] at h
      exact .inr ⟨e', (Except.error.inj h).symm⟩
    · rw [harrange] at h
      cases h

/-- No function fails for its labels or for barriers that are left: all errors are in the statements
of a lane, in lanes that are declared twice or in walks of a lane. In each lane of a lowered
function with its points every label is defined once, and so is every label that the lane jumps
to. -/
theorem compileFunction_passes_verification (c : Compiler) (f : Function) :
    (∀ e, (c.compileFunction f).1 = .error e →
      e.isLabelError = false ∧ (∀ lane count, e ≠ .barrierRemaining lane count) ∧
        (∀ lane label, e ≠ .undefinedLabel lane label) ∧
        ∀ lane label, e ≠ .duplicateLabel lane label) ∧
    ∀ lanes supply, lowerLanes c.supply f.lanes = (.ok lanes, supply) → ∀ initialWait : Bool,
      ∀ lane ∈ placeBarriers initialWait lanes,
        lane.definedLabels.Nodup ∧ ∀ t ∈ lane.targets, lane.definedLabels.count t = 1 := by
  constructor
  · intro e h
    unfold compileFunction at h
    split at h
    · rename_i e' supply hlower
      have hne := lowerLanes_ne_label c.supply f.lanes
      rw [hlower] at hne
      obtain rfl : CompileError.lowering e' = e := Except.error.inj h
      cases e' with
      | label e'' => exact absurd rfl (hne e'')
      | _ => simp [CompileError.isLabelError]
    · rename_i lanes supply hlower
      rcases assemble_eq_error hlower h with ⟨e', rfl⟩ | ⟨e', rfl⟩ <;>
        simp [CompileError.isLabelError]
  · intro lanes supply hlower initialWait lane hlane
    have hsound := labelsSound_placeBarriers hlower initialWait lane hlane
    exact ⟨hsound.nodup, fun t ht => hsound.count_eq_one ht⟩

end Compiler

end Lockstep
