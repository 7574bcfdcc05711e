import Lockstep.Proofs.Records
import Lockstep.Schedule.Json

/-!
# Documents of schedules

A schedule is read back from its document as it was, whatever its names, labels and numbers are
(`Schedule.ofDocument?_document`). Each type is read back from what is written of it, from
identifiers up to schedules; an instruction is a tagged value, so this is one case for each kind of
instruction. A schedule nests at most six containers (`Schedule.nesting_toJson_le`), far below the
limit of the reader.
-/

set_option autoImplicit false

namespace Lockstep

/-! ## Comparisons and instructions -/

theorem readsBack_relation (site : Datum.Site) :
    ReadsBack Relation.toJson (Relation.ofDatum? site) := by
  constructor
  · intro r
    trivial
  · intro r
    cases r <;> rfl

/-- A comparison is read back from its document, wherever it stands. -/
theorem readsBack_comparison (site : Datum.Site) :
    ReadsBack Comparison.toJson (Comparison.ofDatum? site) := by
  constructor
  · intro c
    exact ⟨trivial, trivial, readsBack_int64.inWords c.value, trivial⟩
  · intro c
    unfold Comparison.ofDatum? Comparison.toJson
    rw [Datum.fields?_obj (by simp) (by simp)]
    simp [readsBack_string.reads, (readsBack_relation site).reads, readsBack_int64.reads]

namespace Instruction

/-- The tag of an instruction is one of those that the reader knows. -/
theorem tag_mem_tags (i : Instruction) : i.tag ∈ tags := by
  cases i <;> simp [tag, tags]

/-- No member of an instruction goes by the name under which its tag is written. -/
theorem members_ne_op (i : Instruction) : ∀ m ∈ i.members, m.1 ≠ "op" := by
  cases i <;> simp [members]

/-- All numbers among the members of an instruction fit the words they are read into. -/
theorem membersInWords (i : Instruction) : Json.MembersInWords i.members := by
  cases i with
  | pulse name duration => exact ⟨trivial, readsBack_duration.inWords duration, trivial⟩
  | delay duration => exact ⟨readsBack_duration.inWords duration, trivial⟩
  | store dest source => exact ⟨trivial, trivial, trivial⟩
  | label name => exact ⟨trivial, trivial⟩
  | goto target => exact ⟨trivial, trivial⟩
  | gotoIf test target => exact ⟨(readsBack_comparison .inner).inWords test, trivial, trivial⟩
  | call target => exact ⟨trivial, trivial⟩
  | ret => trivial
  | loadRepeat count => exact ⟨readsBack_uint32.inWords count, trivial⟩
  | repeatFrom target => exact ⟨trivial, trivial⟩
  | barrier id lanes =>
    exact ⟨readsBack_barrierId.inWords id, readsBack_laneId.list.inWords lanes, trivial⟩
  | sync => trivial
  | wait => trivial
  | compare test => exact ⟨(readsBack_comparison .inner).inWords test, trivial⟩
  | loadCompare => trivial

/-- A jump is read back from the document of its target. -/
theorem jumpOfDatum?_obj (make : Label → Instruction) (target : Label) :
    jumpOfDatum? make (Json.obj [("target", target.toJson)]).datum = some (make target) := by
  unfold jumpOfDatum?
  rw [Datum.fields?_obj (by simp) (by simp)]
  simp [readsBack_label.reads]

/-- An instruction is read back from its tag and its members. -/
theorem ofTagged?_members (i : Instruction) :
    ofTagged? i.tag (Json.obj i.members).datum = some i := by
  cases i with
  | ret | sync | wait | loadCompare => rfl
  | goto target => exact jumpOfDatum?_obj goto target
  | call target => exact jumpOfDatum?_obj call target
  | repeatFrom target => exact jumpOfDatum?_obj repeatFrom target
  | label name => simp [tag, members, ofTagged?, readsBack_label.reads]
  | delay duration => simp [tag, members, ofTagged?, readsBack_duration.reads]
  | loadRepeat count => simp [tag, members, ofTagged?, readsBack_uint32.reads]
  | compare test => simp [tag, members, ofTagged?, (readsBack_comparison .inner).reads]
  | pulse name duration =>
    simp [tag, members, ofTagged?, readsBack_string.reads, readsBack_duration.reads]
  | store dest source => simp [tag, members, ofTagged?, readsBack_string.reads]
  | gotoIf test target =>
    simp [tag, members, ofTagged?, (readsBack_comparison .inner).reads, readsBack_label.reads]
  | barrier id lanes =>
    simp [tag, members, ofTagged?, readsBack_barrierId.reads, readsBack_laneId.list.reads]

end Instruction

/-- Every instruction is read back from its document. -/
theorem readsBack_instruction : ReadsBack Instruction.toJson Instruction.ofDatum? := by
  constructor
  · intro i
    exact ⟨trivial, i.membersInWords⟩
  · intro i
    unfold Instruction.ofDatum? Instruction.toJson
    rw [Datum.tagged?_obj i.tag_mem_tags i.members_ne_op]
    exact i.ofTagged?_members

/-! ## Lanes and schedules -/

/-- Every lane is read back from its document. -/
theorem readsBack_lane : ReadsBack Lane.toJson Lane.ofDatum? := by
  constructor
  · intro lane
    exact ⟨readsBack_laneId.inWords lane.id, readsBack_instruction.list.inWords lane.code, trivial⟩
  · intro lane
    unfold Lane.ofDatum? Lane.toJson
    rw [Datum.fields?_obj (by simp) (by simp)]
    simp [readsBack_laneId.reads, readsBack_instruction.list.reads]

/-- Every schedule is read back from its document, whatever the numbers of its lanes are. -/
theorem readsBack_schedule : ReadsBack Schedule.toJson Schedule.ofDatum? := by
  constructor
  · intro s
    exact ⟨trivial, readsBack_lane.list.inWords s.lanes, trivial⟩
  · intro s
    unfold Schedule.ofDatum? Schedule.toJson
    rw [Datum.fields?_obj (by simp) (by simp)]
    simp [readsBack_string.reads, readsBack_lane.list.reads]

/-! ## Nesting -/

/-- A list nests at most one container more than its elements do. -/
theorem Json.nesting_ofList_le {α : Type} {write : α → Json} {bound : Nat}
    (h : ∀ x, (write x).nesting ≤ bound) (xs : List α) :
    (Json.ofList write xs).nesting ≤ bound + 1 := by
  apply Nat.succ_le_succ
  induction xs with
  | nil => exact Nat.zero_le bound
  | cons x xs ih => exact Nat.max_le.2 ⟨h x, ih⟩

theorem Instruction.nesting_toJson_le (i : Instruction) : i.toJson.nesting ≤ 2 := by
  have hlanes : ∀ lanes, (Json.ofList LaneId.toJson lanes).nesting ≤ 1 :=
    Json.nesting_ofList_le fun _ => Nat.le_refl 0
  apply Nat.succ_le_succ
  cases i with
  | barrier id lanes =>
    have hmax := hlanes lanes
    simp [members, Json.nestingOfMembers, Json.nesting, BarrierId.toJson, Json.ofNat, hmax]
  | _ =>
    simp [members, Json.nestingOfMembers, Json.nesting, Json.ofNat, Duration.toJson, Label.toJson,
      Comparison.toJson, Relation.toJson]

theorem Lane.nesting_toJson_le (lane : Lane) : lane.toJson.nesting ≤ 4 := by
  have hcode := Json.nesting_ofList_le Instruction.nesting_toJson_le lane.code
  apply Nat.succ_le_succ
  simpa [Json.nestingOfMembers, Json.nesting, LaneId.toJson, Json.ofNat] using hcode

/-- A schedule, a list of lanes, a lane, a list of instructions, an instruction and what is in it:
no more than six containers are nested. -/
theorem Schedule.nesting_toJson_le (s : Schedule) : s.toJson.nesting ≤ 6 := by
  have hlanes := Json.nesting_ofList_le Lane.nesting_toJson_le s.lanes
  apply Nat.succ_le_succ
  simpa [Json.nestingOfMembers, Json.nesting] using hlanes

/-- Every schedule is read back from its document. -/
theorem Schedule.ofDocument?_document (s : Schedule) : ofDocument? s.document = some s := by
  have hnesting : s.toJson.nesting ≤ Json.nestingLimit :=
    Nat.le_trans s.nesting_toJson_le (by decide)
  have hparse := Json.parse?_pretty (readsBack_schedule.inWords s) hnesting
  unfold ofDocument? document
  rw [hparse]
  exact readsBack_schedule.reads s

end Lockstep
