import Lockstep.Instruction.Json
import Lockstep.Proofs.JsonValues

/-!
# Records in text

How values of this library that were written as JSON are found again in what the text says. An
object says a record with its members as the fields (`Datum.fields?_obj`), and an object with a tag
in front says a tagged value (`Datum.tagged?_obj`): nothing that was written is a flaw
(`Json.isSound_datum`). `ReadsBack write read` states that a reader undoes a writer. It holds of
texts, of words and of durations up to the ends of their ranges, and carries over to lists
(`ReadsBack.list`) and to types that wrap another, such as identifiers (`ReadsBack.wrap`).
-/

set_option autoImplicit false

namespace Lockstep

open Datum (Fields)

namespace Json

mutual

/-- What a value says has no flaw. -/
theorem isSound_datum : ∀ v : Json, v.datum.isSound = true
  | .null => rfl
  | .bool _ => rfl
  | .int (.ofNat _) => rfl
  | .int (.negSucc _) => rfl
  | .str _ => rfl
  | .arr items => by
    rw [datum, Datum.isSound]
    exact areSound_itemData items
  | .obj members => by
    rw [datum, Datum.isSound]
    exact entriesAreSound_entries members

/-- A list of written values says nothing unsound. -/
theorem areSound_itemData : ∀ items : List Json, Datum.areSound (itemData items) = true
  | [] => rfl
  | item :: items => by
    rw [itemData, Datum.areSound, isSound_datum item, areSound_itemData items]
    rfl

/-- Nor do the members of a written object. -/
theorem entriesAreSound_entries :
    ∀ members : List (String × Json), Datum.entriesAreSound (entries members) = true
  | [] => rfl
  | (key, value) :: members => by
    rw [entries, Datum.entriesAreSound, isSound_datum value, entriesAreSound_entries members]
    rfl

end

theorem entries_eq_map (members : List (String × Json)) :
    entries members = members.map fun m => (.text m.1, m.2.datum) := by
  induction members with
  | nil => rfl
  | cons m members ih => rw [entries, ih, List.map_cons]

end Json

/-! ## Records and tagged values -/

namespace Datum

/-- All members are read if each goes by a name that is known. -/
theorem knownFields_members (say : Json → Datum) {names : List String}
    {members : List (String × Json)} (h : ∀ m ∈ members, m.1 ∈ names) :
    knownFields names (members.map fun m => (.text m.1, say m.2)) =
      some (members.map fun m => (m.1, say m.2)) := by
  induction members with
  | nil => rfl
  | cons m members ih =>
    rw [List.forall_mem_cons] at h
    simp [knownFields, ih h.2, h.1]

/-- Fields with different names pass the check for repeated names. -/
theorem namesDistinct_of_nodup {fields : Fields} (h : (fields.map Prod.fst).Nodup) :
    namesDistinct fields = true := by
  induction fields with
  | nil => rfl
  | cons field fields ih =>
    rw [List.map_cons, List.nodup_cons] at h
    have hne : fields.all (·.1 != field.1) = true := by
      rw [List.all_eq_true]
      intro other hother
      rw [bne_iff_ne]
      rintro heq
      exact h.1 (List.mem_map.2 ⟨other, hother, heq⟩)
    simp [namesDistinct, hne, ih h.2]

/-- Members are the fields of the record that they make up, whatever is said of their values. -/
theorem fields?_members (say : Json → Datum) {names : List String}
    {members : List (String × Json)} (hnames : ∀ m ∈ members, m.1 ∈ names)
    (hnodup : (members.map Prod.fst).Nodup) :
    (map (members.map fun m => (.text m.1, say m.2))).fields? names =
      some (members.map fun m => (m.1, say m.2)) := by
  have hdistinct : namesDistinct (members.map fun m => (m.1, say m.2)) = true := by
    apply namesDistinct_of_nodup
    simpa [List.map_map, Function.comp_def] using hnodup
  simp only [fields?, knownFields_members say hnames, hdistinct, if_true]

/-- The members of an object are the fields of the record that it stands for. -/
@[simp]
theorem fields?_obj {names : List String} {members : List (String × Json)}
    (hnames : ∀ m ∈ members, m.1 ∈ names) (hnodup : (members.map Prod.fst).Nodup) :
    (Json.obj members).datum.fields? names = some (members.map fun m => (m.1, m.2.datum)) := by
  rw [Json.datum, Json.entries_eq_map]
  exact fields?_members Json.datum hnames hnodup

@[simp]
theorem Fields.required_self {α : Type} (name : String) (d : Datum) (fields : Fields)
    (read : Datum → Option α) : Fields.required ((name, d) :: fields) name read = read d := by
  simp [required]

/-- Fields of other names are passed over. -/
@[simp]
theorem Fields.required_other {α : Type} {name other : String} (h : other ≠ name) (d : Datum)
    (fields : Fields) (read : Datum → Option α) :
    Fields.required ((other, d) :: fields) name read = Fields.required fields name read := by
  have hne : (name == other) = false := by simpa using fun heq => h heq.symm
  simp [required, List.lookup_cons, hne]

/-- A default has no part in it where the field is there. -/
@[simp]
theorem Fields.optional_self {α : Type} (name : String) (d : Datum) (fields : Fields) (default : α)
    (read : Datum → Option α) :
    Fields.optional ((name, d) :: fields) name default read = read d := by
  simp [optional]

@[simp]
theorem Fields.optional_other {α : Type} {name other : String} (h : other ≠ name) (d : Datum)
    (fields : Fields) (default : α) (read : Datum → Option α) :
    Fields.optional ((other, d) :: fields) name default read =
      Fields.optional fields name default read := by
  have hne : (name == other) = false := by simpa using fun heq => h heq.symm
  simp [optional, List.lookup_cons, hne]

/-- An object with a tag in front is taken apart into the tag and the other members. -/
theorem tagged?_obj {site : Site} {key tag : String} {tags : List String}
    {members : List (String × Json)} (htag : tag ∈ tags) (hkey : ∀ m ∈ members, m.1 ≠ key) :
    (Json.obj ((key, .str tag) :: members)).datum.tagged? site key tags =
      some (tag, (Json.obj members).datum) := by
  have hother : ∀ entry ∈ Json.entries members, hasKey key entry = false := by
    rw [Json.entries_eq_map]
    intro entry hentry
    obtain ⟨m, hm, rfl⟩ := List.mem_map.1 hentry
    simpa [hasKey] using hkey m hm
  have hnone : (Json.entries members).filter (hasKey key) = [] := by
    rw [List.filter_eq_nil_iff]
    intro entry hentry
    simp [hother entry hentry]
  have hall : (Json.entries members).filter (!hasKey key ·) = Json.entries members := by
    rw [List.filter_eq_self]
    intro entry hentry
    simp [hother entry hentry]
  have hself : hasKey key (.text key, .text tag) = true := by simp [hasKey]
  have hsound := Json.isSound_datum (.obj ((key, .str tag) :: members))
  rw [tagged?, if_pos (.inr hsound)]
  simp only [Json.datum, Json.entries, untag?, List.filter_cons, hself, hnone, hall]
  simp [tagName?, htag]

end Datum

/-! ## Reading back -/

/-- What is written in one way is read back in the other. -/
structure ReadsBack {α : Type} (write : α → Json) (read : Datum → Option α) : Prop where
  /-- All integers in it fit into words. -/
  inWords : ∀ x, (write x).InWords
  /-- It is read as what was written. -/
  reads : ∀ x, read (write x).datum = some x

theorem readsBack_string : ReadsBack Json.str Datum.string? := ⟨fun _ => trivial, fun _ => rfl⟩

/-- Every 32-bit word is read back from its number. -/
theorem readsBack_uint32 : ReadsBack (fun n : UInt32 => .ofNat n.toNat) Datum.uint32? := by
  constructor
  · intro n
    have hn := n.toNat_lt
    show (n.toNat : Int).natAbs < UInt64.size
    rw [Int.natAbs_natCast]
    exact Nat.lt_trans hn (by decide)
  · intro n
    have hn : n.toNat ≤ UInt32.size - 1 := Nat.le_sub_one_of_lt n.toNat_lt
    show ((Datum.nat n.toNat).natUpTo? (UInt32.size - 1)).map UInt32.ofNat = some n
    rw [Datum.natUpTo?, if_pos hn]
    simp

/-- Every duration is read back from its ticks, the longest included. -/
theorem readsBack_duration : ReadsBack Duration.toJson Datum.duration? := by
  constructor
  · intro d
    have hd := d.ticks_le
    show (d.ticks : Int).natAbs < UInt64.size
    rw [Int.natAbs_natCast]
    exact Nat.lt_of_le_pred (by decide) hd
  · intro d
    have hd : d.ticks ≤ UInt64.size - 1 := d.ticks_le
    show ((Datum.nat d.ticks).natUpTo? (UInt64.size - 1)).bind Duration.ofNat? = some d
    rw [Datum.natUpTo?, if_pos hd]
    simp [Duration.ofNat?, d.ticks_le]

/-- Every signed 64-bit word is read back from its number. -/
theorem readsBack_int64 : ReadsBack (fun n : Int64 => .int n.toInt) Datum.int64? := by
  constructor
  · intro n
    have hlow := n.le_toInt
    have hhigh := n.toInt_lt
    show n.toInt.natAbs < UInt64.size
    have hsize : UInt64.size = 18446744073709551616 := rfl
    omega
  · intro n
    have hlow := n.minValue_le_toInt
    have hhigh := n.toInt_le
    have hback := Int64.ofInt_toInt n
    cases hn : n.toInt with
    | ofNat m =>
      rw [hn, Int.ofNat_eq_natCast] at hhigh hback
      show (Datum.nat m).int64? = some n
      rw [Datum.int64?, if_pos hhigh]
      exact congrArg some hback
    | negSucc m =>
      have hneg : Int.negSucc m = -((m + 1 : Nat) : Int) := rfl
      rw [hn, hneg] at hlow hback
      show (Datum.neg (m + 1)).int64? = some n
      rw [Datum.int64?, if_pos hlow]
      exact congrArg some hback

/-- A list is read from its first item on. -/
theorem Datum.list?_arr_cons {α : Type} {read : Datum → Option α} {v : Json} {vs : List Json} {x : α}
    {xs : List α} (hfirst : read v.datum = some x)
    (hrest : Datum.list? read (Json.arr vs).datum = some xs) :
    Datum.list? read (Json.arr (v :: vs)).datum = some (x :: xs) := by
  rw [Json.datum, Datum.list?] at hrest ⊢
  simp only [Json.itemData, List.mapM_cons, hfirst, hrest]
  rfl

/-- Lists are read back if their elements are. -/
theorem ReadsBack.list {α : Type} {write : α → Json} {read : Datum → Option α}
    (h : ReadsBack write read) : ReadsBack (Json.ofList write) (Datum.list? read) := by
  constructor
  · intro xs
    induction xs with
    | nil => trivial
    | cons x xs ih => exact ⟨h.inWords x, ih⟩
  · intro xs
    induction xs with
    | nil => rfl
    | cons x xs ih => exact Datum.list?_arr_cons (h.reads x) ih

/-- A type around another one is read back if that one is. -/
theorem ReadsBack.wrap {α β : Type} {write : α → Json} {read : Datum → Option α}
    (h : ReadsBack write read) {wrap : α → β} {unwrap : β → α} (hwrap : ∀ y, wrap (unwrap y) = y) :
    ReadsBack (fun y => write (unwrap y)) (fun d => (read d).map wrap) := by
  constructor
  · intro y
    exact h.inWords (unwrap y)
  · intro y
    rw [h.reads (unwrap y), Option.map_some, hwrap y]

theorem readsBack_laneId : ReadsBack LaneId.toJson LaneId.ofDatum? :=
  readsBack_uint32.wrap fun _ => rfl

theorem readsBack_barrierId : ReadsBack BarrierId.toJson BarrierId.ofDatum? :=
  readsBack_uint32.wrap fun _ => rfl

theorem readsBack_label : ReadsBack Label.toJson Label.ofDatum? :=
  readsBack_string.wrap fun _ => rfl

end Lockstep
