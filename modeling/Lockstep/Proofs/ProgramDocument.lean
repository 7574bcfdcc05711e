import Lockstep.Proofs.Records
import Lockstep.Proofs.ScheduleDocument
import Lockstep.Statement.Json

/-!
# Documents of programs

A program is read back from its compact text as long as this does not nest deeper than the reader
allows, and is refused beyond that (`Program.ofDatum?_compact`).

Two properties of a writer and a reader make up the result. `ReadsBack` is about what the text says:
it is shown for expressions and statements by induction on them, with the number of levels that the
reader may descend bounded below by the nesting. `Heeds` is about what the text says to a reader with
a limit: a reader that accepts it has come across no flaw, so nothing in it lay beyond the limit.
Only the kind of a statement can nest without bound, and there the reader looks for flaws itself.
-/

set_option autoImplicit false

namespace Lockstep

open Datum (Site)

/-! ## Readers with a limit -/

namespace Json

/-- A value without containers is read at any depth. -/
theorem said_of_nesting_eq_zero {v : Json} (h : v.nesting = 0) (limit depth : Nat) :
    v.said limit depth = v.datum := by
  cases v with
  | arr items => exact absurd h (Nat.succ_ne_zero _)
  | obj members => exact absurd h (Nat.succ_ne_zero _)
  | _ => rfl

theorem entriesSaid_eq_map (limit depth : Nat) (members : List (String × Json)) :
    entriesSaid limit depth members = members.map fun m => (.text m.1, m.2.said limit depth) := by
  induction members with
  | nil => rfl
  | cons m members ih => rw [entriesSaid, ih, List.map_cons]

/-- The members of an object are sound if and only if each of them is. -/
theorem entriesAreSound_entriesSaid {limit depth : Nat} {members : List (String × Json)} :
    Datum.entriesAreSound (entriesSaid limit depth members) = true ↔
      ∀ m ∈ members, (m.2.said limit depth).isSound = true := by
  induction members with
  | nil => simp [entriesSaid, Datum.entriesAreSound]
  | cons m members ih =>
    simp [entriesSaid, Datum.entriesAreSound, Datum.isSound, ih]

mutual

/-- What is said without a flaw lies within the limit. -/
theorem nesting_le_of_isSound {limit depth : Nat} (hdepth : depth ≤ limit) : ∀ v : Json,
    (v.said limit depth).isSound = true → depth + v.nesting ≤ limit
  | .null, _ => hdepth
  | .bool _, _ => hdepth
  | .int _, _ => hdepth
  | .str _, _ => hdepth
  | .arr items, h => by
    rw [said] at h
    split at h
    · rename_i hlt
      have hitems := nestingOfItems_le_of_areSound hlt items h
      rw [nesting]
      omega
    · cases h
  | .obj members, h => by
    rw [said] at h
    split at h
    · rename_i hlt
      have hmembers := nestingOfMembers_le_of_areSound hlt members h
      rw [nesting]
      omega
    · cases h

/-- Items that are read without a flaw nest no deeper than the limit allows. -/
theorem nestingOfItems_le_of_areSound {limit depth : Nat} (hdepth : depth ≤ limit) :
    ∀ items : List Json, Datum.areSound (itemsSaid limit depth items) = true →
      depth + nestingOfItems items ≤ limit
  | [], _ => hdepth
  | item :: items, h => by
    rw [itemsSaid, Datum.areSound, Bool.and_eq_true] at h
    have hitem := nesting_le_of_isSound hdepth item h.1
    have hitems := nestingOfItems_le_of_areSound hdepth items h.2
    rw [nestingOfItems]
    omega

/-- Nor do members. -/
theorem nestingOfMembers_le_of_areSound {limit depth : Nat} (hdepth : depth ≤ limit) :
    ∀ members : List (String × Json),
      Datum.entriesAreSound (entriesSaid limit depth members) = true →
      depth + nestingOfMembers members ≤ limit
  | [], _ => hdepth
  | (key, value) :: members, h => by
    rw [entriesSaid, Datum.entriesAreSound, Bool.and_eq_true, Bool.and_eq_true] at h
    have hvalue := nesting_le_of_isSound hdepth value h.1.2
    have hmembers := nestingOfMembers_le_of_areSound hdepth members h.2
    rw [nestingOfMembers]
    omega

end

end Json

/-- A reader that accepts what a written value says within a limit has come across no flaw. -/
def Heeds {α : Type} (write : α → Json) (read : Datum → Option α) : Prop :=
  ∀ (x y : α) (limit depth : Nat), read ((write x).said limit depth) = some y →
    ((write x).said limit depth).isSound = true

/-- What is read back, and read only without flaws, is read from its compact text if and only if
this lies within the limit. -/
theorem ReadsBack.parse?_compact {α : Type} {write : α → Json} {read : Datum → Option α}
    (hback : ReadsBack write read) (hheeds : Heeds write read) (x : α) :
    (Json.parse? (write x).compact).bind read =
      if (write x).nesting ≤ Json.nestingLimit then some x else none := by
  rw [Json.parse?_of_spelled (Json.spelled_compact (hback.inWords x)), Option.bind_some]
  -- The text has a meaning even beyond the limit; it is the reader that refuses this meaning.
  by_cases hfits : (write x).nesting ≤ Json.nestingLimit
  · rw [if_pos hfits, Json.said_eq_datum _ (by omega), hback.reads]
  · rw [if_neg hfits]
    cases hread : read ((write x).said Json.nestingLimit 0) with
    | none => rfl
    | some y =>
      have hsound := hheeds x y _ _ hread
      have hwithin := Json.nesting_le_of_isSound (Nat.zero_le _) _ hsound
      exact absurd hwithin (by omega)

/-- A reader of lists heeds flaws if the reader of elements does. -/
theorem Heeds.list {α : Type} {write : α → Json} {read : Datum → Option α} (h : Heeds write read) :
    Heeds (Json.ofList write) (Datum.list? read) := by
  intro xs ys limit depth hread
  rw [Json.ofList, Json.said] at hread ⊢
  split at hread
  · rename_i hlt
    rw [if_pos hlt, Datum.isSound]
    change (Json.itemsSaid limit (depth + 1) (xs.map write)).mapM read = some ys at hread
    clear hlt
    induction xs generalizing ys with
    | nil => rfl
    | cons x xs ih =>
      simp only [List.map_cons, Json.itemsSaid, List.mapM_cons, Option.bind_eq_bind,
        Option.bind_eq_some_iff] at hread
      obtain ⟨y, hy, ys', hys', -⟩ := hread
      rw [List.map_cons, Json.itemsSaid, Datum.areSound, h x y _ _ hy, ih ys' hys']
      rfl
  · cases hread

/-- A record is read only if it lies within the limit itself, with its members as its fields. -/
theorem Datum.fields?_said {names : List String} {members : List (String × Json)}
    {fields : Datum.Fields} {limit depth : Nat} (hnames : ∀ m ∈ members, m.1 ∈ names)
    (hnodup : (members.map Prod.fst).Nodup)
    (h : ((Json.obj members).said limit depth).fields? names = some fields) :
    fields = (members.map fun m => (m.1, m.2.said limit (depth + 1))) ∧
      (((Json.obj members).said limit depth).isSound = true ↔
        ∀ m ∈ members, (m.2.said limit (depth + 1)).isSound = true) := by
  rw [Json.said] at h ⊢
  split at h
  · rename_i hlt
    rw [Json.entriesSaid_eq_map, Datum.fields?_members (Json.said limit (depth + 1)) hnames hnodup]
      at h
    rw [if_pos hlt, Datum.isSound]
    exact ⟨(Option.some.inj h).symm, Json.entriesAreSound_entriesSaid⟩
  · cases h

namespace Json

mutual

/-- What a value says nests as deep as the value. -/
theorem nesting_datum : ∀ v : Json, v.datum.nesting = v.nesting
  | .null => rfl
  | .bool _ => rfl
  | .int (.ofNat _) => rfl
  | .int (.negSucc _) => rfl
  | .str _ => rfl
  | .arr items => by rw [datum, Datum.nesting, nesting, nesting_itemData items]
  | .obj members => by rw [datum, Datum.nesting, nesting, nesting_entries members]

theorem nesting_itemData : ∀ items : List Json,
    Datum.nestingOfItems (itemData items) = nestingOfItems items
  | [] => rfl
  | item :: items => by
    rw [itemData, Datum.nestingOfItems, nestingOfItems, nesting_datum item, nesting_itemData items]

theorem nesting_entries : ∀ members : List (String × Json),
    Datum.nestingOfEntries (entries members) = nestingOfMembers members
  | [] => rfl
  | (key, value) :: members => by
    simp [entries, Datum.nestingOfEntries, Datum.nesting, nestingOfMembers, nesting_datum value,
      nesting_entries members]

end

end Json

/-! ## Expressions -/

theorem readsBack_binaryOp (site : Site) : ReadsBack BinaryOp.toJson (BinaryOp.ofDatum? site) := by
  constructor
  · intro op
    trivial
  · intro op
    cases op <;> rfl

theorem readsBack_blockId : ReadsBack BlockId.toJson BlockId.ofDatum? :=
  readsBack_uint32.wrap fun _ => rfl

/-- A call is read back if its arguments are. -/
theorem Call.readWith_toJson {arg : Datum → Option Expr} (c : Call)
    (h : Datum.list? arg (Json.arr (Expr.listToJson c.args)).datum = some c.args) :
    readWith arg c.toJson.datum = some c := by
  unfold readWith toJson
  rw [Datum.fields?_obj (by simp) (by simp)]
  simp [readsBack_string.reads, readsBack_duration.reads, h]

namespace Expr

mutual

/-- All numbers in an expression fit the words they are read into. -/
theorem inWords_toJson : ∀ e : Expr, e.toJson.InWords
  | .bool _ => ⟨trivial, trivial⟩
  | .int value => ⟨readsBack_int64.inWords value, trivial⟩
  | .var _ => ⟨trivial, trivial⟩
  | .call _ args duration =>
    ⟨⟨trivial, itemsInWords_listToJson args, readsBack_duration.inWords duration, trivial⟩, trivial⟩
  | .not inner => ⟨inWords_toJson inner, trivial⟩
  | .compare left _ right => ⟨⟨inWords_toJson left, trivial, inWords_toJson right, trivial⟩, trivial⟩
  | .binary left _ right => ⟨⟨inWords_toJson left, trivial, inWords_toJson right, trivial⟩, trivial⟩

theorem itemsInWords_listToJson : ∀ es : List Expr, Json.ItemsInWords (listToJson es)
  | [] => trivial
  | e :: es => ⟨inWords_toJson e, itemsInWords_listToJson es⟩

end

/-- An object with one key is taken apart into the key and its value. -/
theorem variant?_obj {kind : String} (h : kind ∈ kinds) (content : Json) :
    (Json.obj [(kind, content)]).datum.variant? kinds = some (kind, content.datum) := by
  simp [Json.datum, Json.entries, Datum.variant?, Datum.keyName?, h]

mutual

/-- An expression is read back by a reader that may descend as far as it nests. -/
theorem read_toJson (site : Site) : ∀ (e : Expr) (levels : Nat), e.toJson.nesting ≤ levels →
    read site levels e.toJson.datum = some e
  | .bool value, levels + 1, _ => by
    rw [read, toJson, variant?_obj (by decide)]
    rfl
  | .int value, levels + 1, _ => by
    rw [read, toJson, variant?_obj (by decide)]
    change (Json.int value.toInt).datum.int64?.bind (fun n => some (int n)) = some (int value)
    rw [readsBack_int64.reads value]
    rfl
  | .var name, levels + 1, _ => by
    rw [read, toJson, variant?_obj (by decide)]
    rfl
  | .call callee args duration, levels + 1, h => by
    -- The object with the one key spends a level; the parts lie at least that much deeper.
    simp only [toJson, Json.nesting, Json.nestingOfMembers] at h
    have hargs := list?_listToJson site args levels (by omega)
    have hcall := Call.readWith_toJson ⟨callee, args, duration⟩ hargs
    rw [read, toJson, variant?_obj (by decide)]
    change (Call.readWith (fun arg => read site levels arg)
      (Call.toJson ⟨callee, args, duration⟩).datum).bind (fun c => some c.toExpr) = _
    rw [hcall]
    rfl
  | .not inner, levels + 1, h => by
    simp only [toJson, Json.nesting, Json.nestingOfMembers] at h
    have hinner := read_toJson site inner levels (by omega)
    rw [read, toJson, variant?_obj (by decide)]
    change (read site levels inner.toJson.datum).bind (fun e => some (not e)) = _
    rw [hinner]
    rfl
  | .compare left relation right, levels + 1, h => by
    simp only [toJson, Json.nesting, Json.nestingOfMembers] at h
    have hleft := read_toJson site left levels (by omega)
    have hright := read_toJson site right levels (by omega)
    rw [read, toJson, variant?_obj (by decide)]
    simp [hleft, hright, (readsBack_relation site).reads]
  | .binary left op right, levels + 1, h => by
    simp only [toJson, Json.nesting, Json.nestingOfMembers] at h
    have hleft := read_toJson site left levels (by omega)
    have hright := read_toJson site right levels (by omega)
    rw [read, toJson, variant?_obj (by decide)]
    simp [hleft, hright, (readsBack_binaryOp site).reads]

/-- The arguments of a call are read back if there are levels enough for them. -/
theorem list?_listToJson (site : Site) : ∀ (es : List Expr) (levels : Nat),
    Json.nestingOfItems (listToJson es) ≤ levels →
    Datum.list? (fun e => read site levels e) (Json.arr (listToJson es)).datum = some es
  | [], _, _ => rfl
  | e :: es, levels, h => by
    rw [listToJson, Json.nestingOfItems] at h
    have hfirst := read_toJson site e levels (by omega)
    have hrest := list?_listToJson site es levels (by omega)
    exact Datum.list?_arr_cons hfirst hrest

end

theorem listToJson_eq_map (es : List Expr) : listToJson es = es.map toJson := by
  induction es with
  | nil => rfl
  | cons e es ih => rw [listToJson, ih, List.map_cons]

end Expr

/-- Every expression is read back from its document, wherever it stands. -/
theorem readsBack_expr (site : Site) : ReadsBack Expr.toJson (Expr.ofDatum? site) := by
  constructor
  · exact Expr.inWords_toJson
  · intro e
    exact Expr.read_toJson site e _ (Nat.le_of_eq (Json.nesting_datum _).symm)

/-- Every call is read back from its document. -/
theorem readsBack_call (site : Site) : ReadsBack Call.toJson (Call.ofDatum? site) := by
  constructor
  · intro c
    exact ⟨trivial, Expr.itemsInWords_listToJson c.args, readsBack_duration.inWords c.duration,
      trivial⟩
  · intro c
    have hargs := (readsBack_expr site).list.reads c.args
    rw [Json.ofList, ← Expr.listToJson_eq_map] at hargs
    exact Call.readWith_toJson c hargs

/-! ## Statements -/

/-- Every place in a source text is read back. -/
theorem readsBack_location : ReadsBack Location.toJson Location.ofDatum? := by
  constructor
  · intro l
    exact ⟨readsBack_uint32.inWords l.line, readsBack_uint32.inWords l.column, trivial⟩
  · intro l
    unfold Location.ofDatum? Location.toJson
    rw [Datum.fields?_obj (by simp) (by simp)]
    simp [readsBack_uint32.reads]

theorem readsBack_purpose : ReadsBack Purpose.toJson Purpose.ofDatum? := by
  constructor
  · intro purpose
    trivial
  · intro purpose
    cases purpose <;> rfl

namespace Statement

theorem inWords_wrap (loc : Location) (tag : String) {members : List (String × Json)}
    (h : Json.MembersInWords members) : (wrap loc tag members).InWords :=
  ⟨⟨trivial, h⟩, readsBack_location.inWords loc, trivial⟩

mutual

/-- All numbers in a statement fit the words they are read into. -/
theorem inWords_toJson : ∀ st : Statement, st.toJson.InWords
  | .call loc c _ => inWords_wrap loc _ ⟨(readsBack_call .inner).inWords c, trivial, trivial⟩
  | .assign loc _ value _ => inWords_wrap loc _ ⟨trivial, value.inWords_toJson, trivial, trivial⟩
  | .whileDo loc test body =>
    inWords_wrap loc _ ⟨test.inWords_toJson, itemsInWords_listToJson body, trivial⟩
  | .ifElse loc test body orelse =>
    inWords_wrap loc _ ⟨test.inWords_toJson, itemsInWords_listToJson body,
      itemsInWords_listToJson orelse, trivial⟩
  | .breakLoop loc => inWords_wrap loc _ trivial
  | .continueLoop loc => inWords_wrap loc _ trivial
  | .repeatTimes loc count body =>
    inWords_wrap loc _ ⟨readsBack_uint32.inWords count, itemsInWords_listToJson body, trivial⟩
  | .sequential loc body => inWords_wrap loc _ ⟨itemsInWords_listToJson body, trivial⟩
  | .concurrent loc block lanes body =>
    inWords_wrap loc _ ⟨readsBack_blockId.inWords block, readsBack_laneId.list.inWords lanes,
      itemsInWords_listToJson body, trivial⟩
  | .grouped loc groups => inWords_wrap loc _ ⟨itemsInWords_listToJson groups, trivial⟩
  | .group loc lane body =>
    inWords_wrap loc _ ⟨readsBack_laneId.inWords lane, itemsInWords_listToJson body, trivial⟩

theorem itemsInWords_listToJson : ∀ body : List Statement, Json.ItemsInWords (listToJson body)
  | [] => trivial
  | st :: body => ⟨inWords_toJson st, itemsInWords_listToJson body⟩

end

/-- A statement nests two containers more than its members: its own and that of its kind. -/
theorem nesting_wrap (loc : Location) (tag : String) (members : List (String × Json)) :
    (wrap loc tag members).nesting = Json.nestingOfMembers members + 2 := by
  simp [wrap, Location.toJson, Json.ofNat, Json.nesting, Json.nestingOfMembers]

/-- A statement is read back if the content of its kind is. -/
theorem read_wrap {site : Site} {levels : Nat} {loc : Location} {tag : String}
    {members : List (String × Json)} {st : Statement} (htag : tag ∈ tags)
    (hkey : ∀ m ∈ members, m.1 ≠ "stmt")
    (h : ofTagged? (fun s => read .inner levels s) loc tag (Json.obj members).datum = some st) :
    read site (levels + 1) (wrap loc tag members).datum = some st := by
  rw [read, wrap, Datum.fields?_obj (by simp) (by simp)]
  simp [Datum.tagged?_obj htag hkey, readsBack_location.reads, h]

mutual

/-- A statement is read back by a reader that may descend as far as it nests. -/
theorem read_toJson : ∀ (st : Statement) (site : Site) (levels : Nat), st.toJson.nesting ≤ levels →
    read site levels st.toJson.datum = some st
  | .call loc c purpose, site, levels + 1, _ => by
    apply read_wrap (by decide) (by simp)
    simp [ofTagged?, (readsBack_call .inner).reads, readsBack_purpose.reads]
  | .assign loc target value purpose, site, levels + 1, _ => by
    apply read_wrap (by decide) (by simp)
    simp [ofTagged?, readsBack_string.reads, (readsBack_expr .inner).reads, readsBack_purpose.reads]
  | .whileDo loc test body, site, levels + 1, h => by
    -- A test is read with levels of its own, so only the body has to fit into those left.
    rw [toJson, nesting_wrap] at h
    simp only [Json.nestingOfMembers, Json.nesting] at h
    have hbody := list?_listToJson body levels (by omega)
    apply read_wrap (by decide) (by simp)
    simp [ofTagged?, (readsBack_expr .inner).reads, hbody]
  | .ifElse loc test body orelse, site, levels + 1, h => by
    rw [toJson, nesting_wrap] at h
    simp only [Json.nestingOfMembers, Json.nesting] at h
    have hbody := list?_listToJson body levels (by omega)
    have horelse := list?_listToJson orelse levels (by omega)
    apply read_wrap (by decide) (by simp)
    simp [ofTagged?, (readsBack_expr .inner).reads, hbody, horelse]
  | .breakLoop loc, site, levels + 1, _ => by
    apply read_wrap (by decide) (by simp)
    rfl
  | .continueLoop loc, site, levels + 1, _ => by
    apply read_wrap (by decide) (by simp)
    rfl
  | .repeatTimes loc count body, site, levels + 1, h => by
    rw [toJson, nesting_wrap] at h
    simp only [Json.nestingOfMembers, Json.nesting] at h
    have hbody := list?_listToJson body levels (by omega)
    apply read_wrap (by decide) (by simp)
    simp [ofTagged?, readsBack_uint32.reads, hbody]
  | .sequential loc body, site, levels + 1, h => by
    rw [toJson, nesting_wrap] at h
    simp only [Json.nestingOfMembers, Json.nesting] at h
    have hbody := list?_listToJson body levels (by omega)
    apply read_wrap (by decide) (by simp)
    simp [ofTagged?, hbody]
  | .concurrent loc block lanes body, site, levels + 1, h => by
    rw [toJson, nesting_wrap] at h
    simp only [Json.nestingOfMembers, Json.nesting] at h
    have hbody := list?_listToJson body levels (by omega)
    apply read_wrap (by decide) (by simp)
    simp [ofTagged?, readsBack_blockId.reads, readsBack_laneId.list.reads, hbody]
  | .grouped loc groups, site, levels + 1, h => by
    rw [toJson, nesting_wrap] at h
    simp only [Json.nestingOfMembers, Json.nesting] at h
    have hgroups := list?_listToJson groups levels (by omega)
    apply read_wrap (by decide) (by simp)
    simp [ofTagged?, hgroups]
  | .group loc lane body, site, levels + 1, h => by
    rw [toJson, nesting_wrap] at h
    simp only [Json.nestingOfMembers, Json.nesting] at h
    have hbody := list?_listToJson body levels (by omega)
    apply read_wrap (by decide) (by simp)
    simp [ofTagged?, readsBack_laneId.reads, hbody]

/-- The statements of a body are read back if there are levels enough for them. -/
theorem list?_listToJson : ∀ (body : List Statement) (levels : Nat),
    Json.nestingOfItems (listToJson body) ≤ levels →
    Datum.list? (fun s => read .inner levels s) (Json.arr (listToJson body)).datum = some body
  | [], _, _ => rfl
  | st :: body, levels, h => by
    rw [listToJson, Json.nestingOfItems] at h
    have hfirst := read_toJson st .inner levels (by omega)
    have hrest := list?_listToJson body levels (by omega)
    exact Datum.list?_arr_cons hfirst hrest

end

/-- Every statement is written as a kind and a place. -/
theorem exists_wrap (st : Statement) : ∃ loc tag members, st.toJson = wrap loc tag members := by
  cases st <;> exact ⟨_, _, _, rfl⟩

theorem listToJson_eq_map (body : List Statement) : listToJson body = body.map toJson := by
  induction body with
  | nil => rfl
  | cons st body ih => rw [listToJson, ih, List.map_cons]

end Statement

/-- Every statement is read back from its document, however deep its bodies are. -/
theorem readsBack_statement : ReadsBack Statement.toJson Statement.ofDatum? := by
  constructor
  · exact Statement.inWords_toJson
  · intro st
    exact Statement.read_toJson st .outer _ (Nat.le_of_eq (Json.nesting_datum _).symm)

/-- The reader of places accepts nothing with a flaw in it. -/
theorem heeds_location : Heeds Location.toJson Location.ofDatum? := by
  intro l l' limit depth hread
  simp only [Location.ofDatum?, Option.bind_eq_bind, Option.bind_eq_some_iff] at hread
  obtain ⟨fields, hfields, -⟩ := hread
  rw [Location.toJson] at hfields ⊢
  rw [(Datum.fields?_said (by simp) (by simp) hfields).2]
  intro m hm
  have hscalar : m.2.nesting = 0 := by
    simp only [List.mem_cons, List.not_mem_nil, or_false] at hm
    rcases hm with rfl | rfl <;> rfl
  rw [Json.said_of_nesting_eq_zero hscalar]
  exact Json.isSound_datum m.2

/-- A tagged value that stands at the outside is checked for flaws as a whole. -/
theorem Datum.isSound_of_tagged? {key : String} {tags : List String} {d : Datum}
    {found : String × Datum} (h : d.tagged? .outer key tags = some found) : d.isSound = true := by
  rw [tagged?] at h
  split at h
  · rename_i hsite
    exact hsite.resolve_left (by decide)
  · cases h

/-- The reader of statements accepts nothing with a flaw in it. -/
theorem heeds_statement : Heeds Statement.toJson Statement.ofDatum? := by
  intro st st' limit depth hread
  obtain ⟨loc, tag, members, hwrap⟩ := st.exists_wrap
  rw [hwrap, Statement.ofDatum?] at hread
  rw [hwrap]
  -- How far the reader may descend is of no account: it looks for flaws before it descends.
  generalize ((Statement.wrap loc tag members).said limit depth).nesting = levels at hread
  cases levels with
  | zero => cases hread
  | succ levels =>
    simp only [Statement.read, Option.bind_eq_bind, Option.bind_eq_some_iff] at hread
    obtain ⟨fields, hfields, found, hkind, loc', hloc, -⟩ := hread
    rw [Statement.wrap] at hfields ⊢
    obtain ⟨rfl, hsound⟩ := Datum.fields?_said (by simp) (by simp) hfields
    simp only [List.map_cons, List.map_nil, Datum.Fields.required_self] at hkind
    simp only [List.map_cons, List.map_nil, Datum.Fields.optional_self,
      Datum.Fields.optional_other (show "kind" ≠ "location" by decide)] at hloc
    rw [hsound]
    rintro m (_ | ⟨_, _ | ⟨_, hm⟩⟩)
    · exact Datum.isSound_of_tagged? hkind
    · exact heeds_location loc loc' _ _ hloc
    · cases hm

/-! ## Programs -/

/-- The statements of a lane are read back together with its number. -/
theorem readsBack_laneBody : ReadsBack LaneBody.toJson LaneBody.ofDatum? := by
  constructor
  · intro l
    exact ⟨readsBack_laneId.inWords l.lane, Statement.itemsInWords_listToJson l.body, trivial⟩
  · intro l
    have hbody := readsBack_statement.list.reads l.body
    rw [Json.ofList, ← Statement.listToJson_eq_map] at hbody
    unfold LaneBody.ofDatum? LaneBody.toJson
    rw [Datum.fields?_obj (by simp) (by simp)]
    simp [readsBack_laneId.reads, hbody]

/-- The reader of lane bodies accepts nothing with a flaw in it. -/
theorem heeds_laneBody : Heeds LaneBody.toJson LaneBody.ofDatum? := by
  intro l l' limit depth hread
  simp only [LaneBody.ofDatum?, Option.bind_eq_bind, Option.bind_eq_some_iff] at hread
  obtain ⟨fields, hfields, lane, -, body, hbody, -⟩ := hread
  rw [LaneBody.toJson] at hfields ⊢
  obtain ⟨rfl, hsound⟩ := Datum.fields?_said (by simp) (by simp) hfields
  simp only [List.map_cons, List.map_nil, Datum.Fields.required_self,
    Datum.Fields.required_other (show "lane" ≠ "body" by decide)] at hbody
  rw [Statement.listToJson_eq_map] at hbody
  rw [hsound]
  rintro m (_ | ⟨_, _ | ⟨_, hm⟩⟩)
  · rfl
  · rw [Statement.listToJson_eq_map]
    exact heeds_statement.list l.body body _ _ hbody
  · cases hm

/-- Every function is read back from its document. -/
theorem readsBack_function : ReadsBack Function.toJson Function.ofDatum? := by
  constructor
  · intro f
    exact ⟨trivial, readsBack_location.inWords f.location, readsBack_laneBody.list.inWords f.lanes,
      trivial⟩
  · intro f
    unfold Function.ofDatum? Function.toJson
    rw [Datum.fields?_obj (by simp) (by simp)]
    simp [readsBack_string.reads, readsBack_location.reads, readsBack_laneBody.list.reads]

/-- The reader of functions accepts nothing with a flaw in it. -/
theorem heeds_function : Heeds Function.toJson Function.ofDatum? := by
  intro f f' limit depth hread
  simp only [Function.ofDatum?, Option.bind_eq_bind, Option.bind_eq_some_iff] at hread
  obtain ⟨fields, hfields, name, -, location, hlocation, lanes, hlanes, -⟩ := hread
  rw [Function.toJson] at hfields ⊢
  obtain ⟨rfl, hsound⟩ := Datum.fields?_said (by simp) (by simp) hfields
  simp only [List.map_cons, List.map_nil, Datum.Fields.optional_self,
    Datum.Fields.optional_other (show "name" ≠ "location" by decide)] at hlocation
  simp only [List.map_cons, List.map_nil, Datum.Fields.required_self,
    Datum.Fields.required_other (show "name" ≠ "lanes" by decide),
    Datum.Fields.required_other (show "location" ≠ "lanes" by decide)] at hlanes
  rw [hsound]
  rintro m (_ | ⟨_, _ | ⟨_, _ | ⟨_, hm⟩⟩⟩)
  · rfl
  · exact heeds_location f.location location _ _ hlocation
  · exact heeds_laneBody.list f.lanes lanes _ _ hlanes
  · cases hm

/-- Every program is read back from its document. -/
theorem readsBack_program : ReadsBack Program.toJson Program.ofDatum? := by
  constructor
  · intro p
    exact ⟨readsBack_function.list.inWords p.functions, trivial⟩
  · intro p
    unfold Program.ofDatum? Program.toJson
    rw [Datum.fields?_obj (by simp) (by simp)]
    simp [readsBack_function.list.reads]

/-- The reader of programs accepts nothing with a flaw in it. -/
theorem heeds_program : Heeds Program.toJson Program.ofDatum? := by
  intro p p' limit depth hread
  simp only [Program.ofDatum?, Option.bind_eq_bind, Option.bind_eq_some_iff] at hread
  obtain ⟨fields, hfields, functions, hfunctions, -⟩ := hread
  rw [Program.toJson] at hfields ⊢
  obtain ⟨rfl, hsound⟩ := Datum.fields?_said (by simp) (by simp) hfields
  simp only [List.map_cons, List.map_nil, Datum.Fields.required_self] at hfunctions
  rw [hsound]
  rintro m (_ | ⟨_, hm⟩)
  · exact heeds_function.list p.functions functions _ _ hfunctions
  · cases hm

/-- A program is read back from its compact text if this nests at most 127 objects and arrays inside
one another, and is refused otherwise. -/
theorem Program.ofDatum?_compact (p : Program) :
    (Json.parse? p.toJson.compact).bind ofDatum? =
      if p.toJson.nesting ≤ 127 then some p else none :=
  readsBack_program.parse?_compact heeds_program p

end Lockstep
