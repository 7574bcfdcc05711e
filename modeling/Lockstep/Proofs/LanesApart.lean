import Lockstep.Proofs.Accepted
import Lockstep.Proofs.ScheduleDocument

/-!
# Lanes with numbers of their own

A lane is found by its number, so no two lanes of a schedule should have the same. A schedule comes
from nothing, from a list of lanes or from a document, and lanes may be added to it later. Additions
keep the numbers as they were, apart or not (`lanesApart_addLane`), and the list constructor accepts
exactly the lists in which they are apart; so whether all numbers are apart after any run is decided
by where the schedule came from (`Schedule.lanesApart_run_iff`).

A document is taken as it stands: every schedule has a document (`ofDocument?_compact`), one with
repeated numbers as well (`Schedule.repeated_lane_is_read`).
-/

set_option autoImplicit false

namespace Lockstep.Schedule

/-- No two lanes have the same number. -/
def LanesApart (s : Schedule) : Prop := (s.lanes.map Lane.id).Nodup

instance (s : Schedule) : Decidable s.LanesApart :=
  inferInstanceAs (Decidable (s.lanes.map Lane.id).Nodup)

/-- Where a schedule comes from. -/
inductive Origin where
  /-- It is made without lanes. -/
  | made (name : String)
  /-- It is made from a list of lanes. -/
  | listed (name : String) (lanes : List Lane)
  /-- It is read from a document. -/
  | read (text : String)

/-- The schedule that comes from there. -/
def Origin.schedule? : Origin → Option Schedule
  | made name => some (empty name)
  | listed name lanes => (ofLanes name lanes).toOption
  | read text => ofDocument? text

/-- The schedule after lanes are tried on it one after the other, whether they are refused or not. -/
def afterTrying (s : Schedule) (tried : List Lane) : Schedule :=
  tried.foldl (fun s lane => (s.addLane lane).2) s

/-- An attempt to add a lane neither brings a second lane of the same number nor takes one away. -/
theorem lanesApart_addLane (s : Schedule) (lane : Lane) :
    (s.addLane lane).2.LanesApart ↔ s.LanesApart := by
  by_cases hold : lane.id ∈ s.lanes.map Lane.id
  · rw [addLane_of_mem hold]
  · rw [addLane_of_not_mem hold]
    simp only [LanesApart, List.map_append, List.map_cons, List.map_nil]
    rw [List.nodup_append]
    constructor
    · rintro ⟨hnodup, -, -⟩
      exact hnodup
    · intro hnodup
      refine ⟨hnodup, List.nodup_singleton _, ?_⟩
      rintro id hid _ (_ | ⟨_, ⟨⟩⟩) rfl
      exact hold hid

theorem lanesApart_afterTrying (tried : List Lane) (s : Schedule) :
    (s.afterTrying tried).LanesApart ↔ s.LanesApart := by
  induction tried generalizing s with
  | nil => rfl
  | cons lane tried ih => exact (ih _).trans (lanesApart_addLane s lane)

/-- The lanes of a schedule are apart if and only if the schedule can be made from them. -/
theorem lanesApart_iff_ofLanes (s : Schedule) :
    s.LanesApart ↔ ofLanes s.name s.lanes = .ok s := by
  rw [LanesApart, ← exists_ofLanes_iff s.name]
  constructor
  · rintro ⟨listed, hlisted⟩
    obtain rfl := eq_of_ofLanes hlisted
    exact hlisted
  · intro h
    exact ⟨s, h⟩

theorem Origin.lanesApart_of_not_read {origin : Origin} {s : Schedule}
    (h : origin.schedule? = some s) (hread : ∀ text, origin ≠ .read text) : s.LanesApart := by
  cases origin with
  | made name =>
    cases h
    exact List.nodup_nil
  | listed name lanes =>
    rw [schedule?] at h
    cases hlisted : ofLanes name lanes with
    | error e =>
      rw [hlisted] at h
      cases h
    | ok listed =>
      rw [hlisted] at h
      cases h
      rw [LanesApart, lanes_of_ofLanes hlisted]
      exact (exists_ofLanes_iff name).1 ⟨_, hlisted⟩
  | read text => exact absurd rfl (hread text)

/-- Whatever lanes are tried on a schedule, its lanes are apart afterwards exactly if they were
before, which means that the schedule could have been made from them. So it is unless it was read.
A lane is refused only if its number is taken, and changes nothing then. -/
theorem lanesApart_run_iff {origin : Origin} {s : Schedule} (h : origin.schedule? = some s)
    (tried : List Lane) :
    ((s.afterTrying tried).LanesApart ↔ s.LanesApart) ∧
      (s.LanesApart ↔ ofLanes s.name s.lanes = .ok s) ∧
      ((∀ text, origin ≠ .read text) → s.LanesApart) ∧
      ∀ lane e, ((s.afterTrying tried).addLane lane).1 = .error e →
        lane.id ∈ (s.afterTrying tried).lanes.map Lane.id ∧
          ((s.afterTrying tried).addLane lane).2 = s.afterTrying tried := by
  refine ⟨lanesApart_afterTrying tried s, lanesApart_iff_ofLanes s,
    Origin.lanesApart_of_not_read h, ?_⟩
  intro lane e hrefused
  by_cases hold : lane.id ∈ (s.afterTrying tried).lanes.map Lane.id
  · exact ⟨hold, by rw [addLane_of_mem hold]⟩
  · rw [addLane_of_not_mem hold] at hrefused
    cases hrefused

theorem lanesApart_tried :
    (Origin.listed "f" [.empty ⟨0⟩, .empty ⟨1⟩]).schedule? =
        some ⟨"f", [.empty ⟨0⟩, .empty ⟨1⟩]⟩ ∧
      (afterTrying ⟨"f", [.empty ⟨0⟩, .empty ⟨1⟩]⟩ [.empty ⟨1⟩, .empty ⟨2⟩]).LanesApart := by
  have hlisted : (Origin.listed "f" [.empty ⟨0⟩, .empty ⟨1⟩]).schedule? =
      some ⟨"f", [.empty ⟨0⟩, .empty ⟨1⟩]⟩ := by decide
  obtain ⟨hrun, -, hstart, -⟩ := lanesApart_run_iff hlisted [Lane.empty ⟨1⟩, .empty ⟨2⟩]
  exact ⟨hlisted, hrun.2 (hstart (by rintro text ⟨⟩))⟩

/-! ## Documents -/

/-- Every schedule is read from its compact text, whatever the numbers of its lanes. -/
theorem ofDocument?_compact (s : Schedule) : ofDocument? s.toJson.compact = some s := by
  have hnesting : s.toJson.nesting ≤ Json.nestingLimit :=
    Nat.le_trans s.nesting_toJson_le (by decide)
  have hparse := Json.parse?_compact (readsBack_schedule.inWords s) hnesting
  unfold ofDocument?
  rw [hparse]
  exact readsBack_schedule.reads s

/-- Two lanes with the number 0 are read from a document, and are refused as a list. -/
theorem repeated_lane_is_read :
    let s : Schedule := ⟨"dup", [.empty ⟨0⟩, .empty ⟨0⟩]⟩
    ofDocument? ("\x7b\"name\":\"dup\",\"lanes\":[\x7b\"lane\":0,\"instructions\":[]\x7d," ++
        "\x7b\"lane\":0,\"instructions\":[]\x7d]\x7d") = some s ∧
      ¬ s.LanesApart ∧
      ofLanes s.name s.lanes = .error (.duplicateLane ⟨0⟩ (some "dup")) := by
  refine ⟨?_, by decide, rfl⟩
  have htext : (Schedule.mk "dup" [.empty ⟨0⟩, .empty ⟨0⟩]).toJson.compact =
      "\x7b\"name\":\"dup\",\"lanes\":[\x7b\"lane\":0,\"instructions\":[]\x7d," ++
        "\x7b\"lane\":0,\"instructions\":[]\x7d]\x7d" := by decide
  rw [← htext]
  exact ofDocument?_compact _

end Lockstep.Schedule
