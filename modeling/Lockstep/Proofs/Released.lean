import Lockstep.Proofs.Refused
import Lockstep.Proofs.Verification

/-!
# Released schedules

What a pipeline lets through, for schedules of any origin. The lanes are released without barriers,
or as they were if their numbers of barriers differ. Verification changes nothing about that: it
refuses exactly the schedules with a lane in which a label is defined twice or a jump has no label,
and since the first pass keeps the labels of every lane this can be told from the schedule that was
given. Barriers that are left are never the reason for a refusal.
-/

set_option autoImplicit false

namespace Lockstep

/-! ## What the check of labels accepts -/

theorem Lane.labelsSound_of_checkLabels {lane : Lane} {summary : LabelSummary}
    (h : lane.checkLabels = .ok summary) : LabelsSound lane.code := by
  unfold checkLabels at h
  split at h
  · cases h
  · rename_i hdup
    split at h
    · cases h
    · rename_i hfind
      refine ⟨(firstRepeated?_eq_none_iff.1 hdup).1, ?_⟩
      intro t ht
      by_contra hmissing
      exact List.find?_eq_none.1 hfind t ht (decide_eq_true hmissing)

theorem Lane.checkLabels_ne_barrierRemaining (lane : Lane) (id : LaneId) (count : Nat) :
    lane.checkLabels ≠ .error (.barrierRemaining id count) := by
  unfold checkLabels
  intro h
  split at h
  · cases h
  · split at h <;> cases h

/-- The labels of lanes are accepted exactly if they are sound in each lane. A refusal is never
about barriers. -/
theorem checkLabels_cases (lanes : List Lane) :
    (∃ summary, checkLabels lanes = .ok summary ∧ ∀ lane ∈ lanes, LabelsSound lane.code) ∨
      ∃ e, checkLabels lanes = .error e ∧ (¬ ∀ lane ∈ lanes, LabelsSound lane.code) ∧
        ∀ lane count, e ≠ .barrierRemaining lane count := by
  cases h : checkLabels lanes with
  | ok summary =>
    refine .inl ⟨summary, rfl, ?_⟩
    obtain ⟨summaries, hall, -⟩ := exists_of_bind_eq_ok h
    intro lane hlane
    have hmem : lane.checkLabels ∈ summaries.map .ok := by
      rw [← map_eq_of_mapM_eq_ok hall]
      exact List.mem_map_of_mem hlane
    obtain ⟨summary, -, hok⟩ := List.mem_map.1 hmem
    exact Lane.labelsSound_of_checkLabels hok.symm
  | error e =>
    refine .inr ⟨e, rfl, ?_, ?_⟩
    · intro hsound
      obtain ⟨summary, hok⟩ := checkLabels_of_labelsSound hsound
      rw [hok] at h
      cases h
    · rintro lane count rfl
      unfold checkLabels at h
      cases hall : lanes.mapM Lane.checkLabels with
      | ok summaries =>
        rw [hall] at h
        cases h
      | error e =>
        rw [hall] at h
        cases h
        obtain ⟨-, checked, -, -, herror, -⟩ := mapM_eq_error_iff.1 hall
        exact checked.checkLabels_ne_barrierRemaining lane count herror

/-! ## What the first pass releases -/

section Arrange

variable {options : Options} {lanes out : List Lane} {report : Report}

/-- The first pass keeps the labels of every lane. -/
theorem labelsSound_arrange_iff (options : Options) (lanes : List Lane) :
    (∀ lane ∈ (arrange options lanes).2, LabelsSound lane.code) ↔
      ∀ lane ∈ lanes, LabelsSound lane.code :=
  ⟨labelsSound_of_visibleLanes (visibleLanes_arrange options lanes).symm,
    labelsSound_of_visibleLanes (visibleLanes_arrange options lanes)⟩

/-- The first pass leaves lanes alone and says so, if their numbers of barriers differ. Otherwise no
barrier is left. -/
theorem arrange_releases (h : arrange options lanes = (.ok report, out)) :
    (report.mismatch = some (lanes.map Lane.barrierCount) ∧
        (∃ a ∈ lanes, ∃ b ∈ lanes, a.barrierCount ≠ b.barrierCount) ∧ out = lanes) ∨
      (report.mismatch = none ∧ ∀ lane ∈ out, ∀ i ∈ lane.code, i.isBarrier = false) := by
  rcases arrange_cases h with ⟨hnone, rfl, rfl⟩ | ⟨all, -, rfl, rfl⟩
  · refine .inl ⟨rfl, ?_, rfl⟩
    -- If all lanes had the number of the first one, that would be their common number.
    by_contra hequal
    cases out with
    | nil => cases hnone
    | cons lane rest =>
      have hcommon : Alignment.commonCount? (lane :: rest) = some lane.barrierCount := by
        refine Alignment.commonCount?_eq_some (fun h => by cases h) ?_
        intro other hother
        by_contra hne
        exact hequal ⟨other, hother, lane, List.mem_cons_self, hne⟩
      rw [hcommon] at hnone
      cases hnone
  · refine .inr ⟨rfl, ?_⟩
    intro lane hlane
    exact countP_isBarrier_eq_zero_iff.1 (barrierCount_of_mem_apply hlane)

end Arrange

namespace Compiler

/-- A schedule is released exactly if its lanes can be arranged and, in case of verification, have
sound labels. It is released as it is arranged. -/
theorem resolve_eq_ok_iff {options : Options} {schedule out : Schedule} {result : Option Report} :
    resolve options schedule = (.ok result, out) ↔
      ∃ lanes report, arrange options schedule.lanes = (.ok report, lanes) ∧
        result = some report ∧ out = { schedule with lanes } ∧
        (options.verify = true → ∀ lane ∈ schedule.lanes, LabelsSound lane.code) := by
  have hlabels := labelsSound_arrange_iff options schedule.lanes
  rw [resolve_eq_checked]
  rcases harrange : arrange options schedule.lanes with ⟨arranged, lanes⟩
  rw [harrange] at hlabels
  cases arranged with
  | error e => simp
  | ok report =>
    constructor
    · intro h
      refine ⟨lanes, report, rfl, ?_⟩
      rcases checkLabels_cases lanes with ⟨summary, hcheck, hsound⟩ | ⟨e, hcheck, -, -⟩
      · simp only [hcheck] at h
        cases h
        exact ⟨rfl, rfl, fun _ => hlabels.1 hsound⟩
      · simp only [hcheck] at h
        split at h
        · cases h
        · rename_i hverify
          cases h
          exact ⟨rfl, rfl, fun h => absurd h hverify⟩
    · rintro ⟨_, _, hsame, rfl, rfl, hsound⟩
      cases hsame
      rcases checkLabels_cases lanes with ⟨summary, hcheck, -⟩ | ⟨e, hcheck, hrefused, -⟩
      · simp only [hcheck]
      · have hverify : ¬ options.verify = true := fun h => hrefused (hlabels.2 (hsound h))
        simp only [hcheck, if_neg hverify]

/-- What a pipeline releases of a schedule is its lanes without barriers, or the schedule as it was,
with the numbers of barriers of its lanes, if these differ. Verification refuses the schedules in
which a lane defines a label twice or jumps to one that it does not define, and changes nothing
about the others. No schedule is refused for barriers that are left. -/
theorem resolve_releases (options : Options) (schedule : Schedule) :
    (∀ result out, resolve options schedule = (.ok result, out) →
      ∃ report, result = some report ∧
        ((report.mismatch = some schedule.barrierCounts ∧
            (∃ a ∈ schedule.lanes, ∃ b ∈ schedule.lanes, a.barrierCount ≠ b.barrierCount) ∧
            out = schedule) ∨
          (report.mismatch = none ∧ ∀ lane ∈ out.lanes, ∀ i ∈ lane.code, i.isBarrier = false))) ∧
    (∀ result out, resolve { options with verify := true } schedule = (.ok result, out) ↔
      resolve { options with verify := false } schedule = (.ok result, out) ∧
        ∀ lane ∈ schedule.lanes, lane.definedLabels.Nodup ∧ lane.targets ⊆ lane.definedLabels) ∧
    ∀ lane count, (resolve options schedule).1 ≠ .error (.barrierRemaining lane count) := by
  refine ⟨?_, ?_, ?_⟩
  · intro result out h
    obtain ⟨lanes, report, harrange, rfl, rfl, -⟩ := resolve_eq_ok_iff.1 h
    refine ⟨report, rfl, ?_⟩
    rcases arrange_releases harrange with ⟨hmismatch, hdiffer, rfl⟩ | hfree
    · exact .inl ⟨hmismatch, hdiffer, rfl⟩
    · exact .inr hfree
  · intro result out
    rw [resolve_eq_ok_iff, resolve_eq_ok_iff]
    constructor
    · rintro ⟨lanes, report, harrange, hresult, hout, hsound⟩
      refine ⟨⟨lanes, report, harrange, hresult, hout, fun h => by cases h⟩, ?_⟩
      intro lane hlane
      exact ⟨(hsound rfl lane hlane).nodup, (hsound rfl lane hlane).defined⟩
    · rintro ⟨⟨lanes, report, harrange, hresult, hout, -⟩, hsound⟩
      refine ⟨lanes, report, harrange, hresult, hout, ?_⟩
      intro _ lane hlane
      exact ⟨(hsound lane hlane).1, (hsound lane hlane).2⟩
  · intro lane count h
    rw [resolve_eq_checked] at h
    rcases harrange : arrange options schedule.lanes with ⟨e | report, lanes⟩
    · rw [harrange] at h
      cases h
    · rw [harrange] at h
      rcases checkLabels_cases lanes with ⟨summary, hcheck, -⟩ | ⟨e, hcheck, -, hne⟩
      · simp only [hcheck] at h
        cases h
      · simp only [hcheck] at h
        split at h
        · exact hne lane count (Except.error.inj h)
        · cases h

end Compiler

end Lockstep
