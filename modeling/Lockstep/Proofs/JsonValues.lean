import Lockstep.Json.Reader
import Lockstep.Proofs.JsonTokens

/-!
# Values in text

What the reader makes of a written value. `Json.datum` is what a value says; `Json.said` is the same
for a reader with a limit, in which a container that stands too deep is a flaw. The reader takes the
tokens of a value one by one and comes to `Json.said`, whatever containers are open around the value
(`run_tokens`); the proof goes by the structure of the value and keeps the containers as the stack
that the reader has them on. Together with the spelling of tokens: a value is read from any text
that spells it (`parse?_of_spelled`), and as it is if it does not nest deeper than the limit
(`parse?_pretty`, `parse?_compact`).
-/

set_option autoImplicit false

namespace Lockstep.Json

/-! ## What a value says -/

/-- What an integer says. -/
def integer : Int → Datum
  | .ofNat n => .nat n
  | .negSucc n => .neg (n + 1)

mutual

/-- What a value says. -/
def datum : Json → Datum
  | .null => .null
  | .bool value => .bool value
  | .int value => integer value
  | .str value => .text value
  | .arr items => .seq (itemData items)
  | .obj members => .map (entries members)

/-- What the items of an array say. -/
def itemData : List Json → List Datum
  | [] => []
  | item :: items => item.datum :: itemData items

/-- What the members of an object say. -/
def entries : List (String × Json) → List (Datum × Datum)
  | [] => []
  | (key, value) :: members => (.text key, value.datum) :: entries members

end

mutual

/-- What a value inside `depth` containers says to a reader that allows `limit` of them. -/
def said (limit depth : Nat) : Json → Datum
  | .arr items => if depth < limit then .seq (itemsSaid limit (depth + 1) items) else .flaw
  | .obj members => if depth < limit then .map (entriesSaid limit (depth + 1) members) else .flaw
  | v => v.datum

/-- What the items of an array say to such a reader. -/
def itemsSaid (limit depth : Nat) : List Json → List Datum
  | [] => []
  | item :: items => item.said limit depth :: itemsSaid limit depth items

/-- What the members of an object say to such a reader. -/
def entriesSaid (limit depth : Nat) : List (String × Json) → List (Datum × Datum)
  | [] => []
  | (key, value) :: members =>
    (.text key, value.said limit depth) :: entriesSaid limit depth members

end

mutual

/-- Within the limit, everything is said. -/
theorem said_eq_datum {limit depth : Nat} :
    ∀ v : Json, depth + v.nesting ≤ limit → v.said limit depth = v.datum
  | .null, _ => rfl
  | .bool _, _ => rfl
  | .int _, _ => rfl
  | .str _, _ => rfl
  | .arr items, h => by
    rw [nesting] at h
    rw [said, if_pos (by omega), datum, itemsSaid_eq_itemData items (by omega)]
  | .obj members, h => by
    rw [nesting] at h
    rw [said, if_pos (by omega), datum, entriesSaid_eq_entries members (by omega)]

theorem itemsSaid_eq_itemData {limit depth : Nat} :
    ∀ items : List Json, depth + nestingOfItems items ≤ limit →
      itemsSaid limit depth items = itemData items
  | [], _ => rfl
  | item :: items, h => by
    rw [nestingOfItems] at h
    rw [itemsSaid, itemData, said_eq_datum item (by omega), itemsSaid_eq_itemData items (by omega)]

theorem entriesSaid_eq_entries {limit depth : Nat} :
    ∀ members : List (String × Json), depth + nestingOfMembers members ≤ limit →
      entriesSaid limit depth members = entries members
  | [], _ => rfl
  | (key, value) :: members, h => by
    rw [nestingOfMembers] at h
    rw [entriesSaid, entries, said_eq_datum value (by omega),
      entriesSaid_eq_entries members (by omega)]

end

/-! ## Taking tokens -/

namespace Reading

/-- Take tokens one after the other. -/
def run (limit : Nat) (state : Reading) (ts : List Token) : Option Reading :=
  ts.foldlM (step limit) state

theorem run_cons (limit : Nat) (state : Reading) (t : Token) (ts : List Token) :
    run limit state (t :: ts) = (state.step limit t).bind fun state => run limit state ts :=
  rfl

theorem run_append (limit : Nat) (state : Reading) (ts us : List Token) :
    run limit state (ts ++ us) = (run limit state ts).bind fun state => run limit state us :=
  List.foldlM_append

end Reading

open Reading

theorem readFrom_eq (limit : Nat) (state : Reading) (text : List Char) :
    readFrom limit state text =
      match Token.scan text with
      | .finished => state.result?
      | .fault => none
      | .token t rest => (state.step limit t).bind fun state => readFrom limit state rest := by
  rw [readFrom]
  split
  · rename_i hscan
    rw [hscan]
  · rename_i hscan
    rw [hscan]
  · rename_i t rest hscan
    rw [hscan]
    cases hstep : state.step limit t <;> simp only [hstep, Option.bind_none, Option.bind_some]

/-- Reading a text is taking the tokens that it spells. -/
theorem readFrom_of_spelled {ts : List Token} {text : List Char} (h : Spelled ts text)
    (limit : Nat) (state : Reading) :
    readFrom limit state text = (run limit state ts).bind Reading.result? := by
  induction h generalizing state with
  | nil =>
    rw [readFrom_eq]
    rfl
  | blank hblank _ ih => rw [← ih, readFrom_eq, Token.scan_blank hblank, ← readFrom_eq]
  | token hwritten hends _ ih =>
    rw [readFrom_eq, Token.scan_chars hwritten hends, run_cons, Option.bind_assoc]
    simp only [ih]

/-! ## Taking the tokens of a value -/

/-- The first item of an array is taken as any other. -/
theorem run_firstItem (limit : Nat) (stack : List Frame) (v : Json) (ts : List Token) :
    run limit (.wantItemOrEnd stack) (v.tokens ++ ts) =
      run limit (.wantValue (.arr [] :: stack)) (v.tokens ++ ts) := by
  cases v with
  | int n => cases n <;> rfl
  | _ => rfl

/-- The tokens of items in a row start with those of the first. -/
theorem itemTokens_cons (item : Json) (items : List Json) :
    ∃ ts, itemTokens (item :: items) = item.tokens ++ ts := by
  cases items with
  | nil => exact ⟨[], by simp [itemTokens]⟩
  | cons item' items => exact ⟨.comma :: itemTokens (item' :: items), rfl⟩

/-- The first key of an object is taken as any other. -/
theorem run_firstKey (limit : Nat) (stack : List Frame) (m : String × Json)
    (members : List (String × Json)) (ts : List Token) :
    run limit (.wantKeyOrEnd stack) (memberTokens (m :: members) ++ ts) =
      run limit (.wantKey [] stack) (memberTokens (m :: members) ++ ts) := by
  obtain ⟨key, value⟩ := m
  cases members <;> rfl

/-- A key and its colon open the place of its value. -/
theorem run_key (limit : Nat) (stack : List Frame) (before : List (Datum × Datum)) (key : String)
    (ts : List Token) :
    run limit (.wantKey before stack) (.str key :: .colon :: ts) =
      run limit (.wantValue (.obj before (.text key) :: stack)) ts :=
  rfl

mutual

/-- The tokens of a value bring the reader from where a value must follow to where one is complete,
with the same containers open. -/
theorem run_tokens (limit : Nat) (stack : List Frame) : ∀ v : Json,
    run limit (.wantValue stack) v.tokens = some (.complete (v.said limit stack.length) stack)
  | .null => rfl
  | .bool _ => rfl
  | .int (.ofNat _) => rfl
  | .int (.negSucc _) => rfl
  | .str _ => rfl
  | .arr [] => rfl
  | .obj [] => rfl
  | .arr (item :: items) => by
    obtain ⟨ts, hts⟩ := itemTokens_cons item items
    have hfirst := run_firstItem limit stack item (ts ++ [.closeArr])
    rw [← List.append_assoc, ← hts] at hfirst
    have hinside := run_itemTokens limit stack [] (item :: items) (List.cons_ne_nil _ _)
    exact hfirst.trans hinside
  | .obj (m :: members) => by
    have hfirst := run_firstKey limit stack m members [.closeObj]
    have hinside := run_memberTokens limit stack [] (m :: members) (List.cons_ne_nil _ _)
    exact hfirst.trans hinside

/-- Items and the end of their array, after the items that are read already. -/
theorem run_itemTokens (limit : Nat) (stack : List Frame) (before : List Datum) :
    ∀ items : List Json, items ≠ [] →
      run limit (.wantValue (.arr before :: stack)) (itemTokens items ++ [.closeArr]) =
        some (close limit (.seq (before.reverse ++ itemsSaid limit (stack.length + 1) items)) stack)
  | [], h => absurd rfl h
  | [item], _ => by
    rw [itemTokens, run_append, run_tokens limit (.arr before :: stack) item, itemsSaid, itemsSaid,
      ← List.reverse_cons]
    rfl
  | item :: item' :: items, _ => by
    -- After the comma the item is one of those that are read already.
    have hrest := run_itemTokens limit stack (item.said limit (stack.length + 1) :: before)
      (item' :: items) (List.cons_ne_nil _ _)
    rw [List.reverse_cons, List.append_assoc] at hrest
    have htokens : itemTokens (item :: item' :: items) ++ [.closeArr] =
        item.tokens ++ .comma :: (itemTokens (item' :: items) ++ [.closeArr]) := by
      simp [itemTokens]
    rw [htokens, run_append, run_tokens limit (.arr before :: stack) item]
    exact hrest

/-- Members and the end of their object, after the members that are read already. -/
theorem run_memberTokens (limit : Nat) (stack : List Frame) (before : List (Datum × Datum)) :
    ∀ members : List (String × Json), members ≠ [] →
      run limit (.wantKey before stack) (memberTokens members ++ [.closeObj]) =
        some (close limit (.map (before.reverse ++ entriesSaid limit (stack.length + 1) members))
          stack)
  | [], h => absurd rfl h
  | [(key, value)], _ => by
    have hvalue := run_tokens limit (.obj before (.text key) :: stack) value
    rw [memberTokens, List.cons_append, List.cons_append, run_key, run_append, hvalue, entriesSaid,
      entriesSaid, ← List.reverse_cons]
    rfl
  | (key, value) :: m :: members, _ => by
    have hvalue := run_tokens limit (.obj before (.text key) :: stack) value
    have hrest := run_memberTokens limit stack
      ((.text key, value.said limit (stack.length + 1)) :: before) (m :: members)
      (List.cons_ne_nil _ _)
    rw [List.reverse_cons, List.append_assoc] at hrest
    have htokens : memberTokens ((key, value) :: m :: members) ++ [.closeObj] =
        .str key :: .colon ::
          (value.tokens ++ .comma :: (memberTokens (m :: members) ++ [.closeObj])) := by
      simp [memberTokens]
    rw [htokens, run_key, run_append, hvalue]
    exact hrest

end

/-- A text that spells the tokens of a value is read as what the value says within the limit. -/
theorem parse?_of_spelled {v : Json} {text : String} (h : Spelled v.tokens text.toList) :
    parse? text = some (v.said nestingLimit 0) := by
  unfold parse? parseWithin?
  rw [readFrom_of_spelled h, run_tokens]
  rfl

/-- A value that does not nest too deep is read as it is. -/
theorem parse?_pretty {v : Json} (h : v.InWords) (hnesting : v.nesting ≤ nestingLimit) :
    parse? v.pretty = some v.datum := by
  rw [parse?_of_spelled (spelled_pretty h), said_eq_datum v (by omega)]

theorem parse?_compact {v : Json} (h : v.InWords) (hnesting : v.nesting ≤ nestingLimit) :
    parse? v.compact = some v.datum := by
  rw [parse?_of_spelled (spelled_compact h), said_eq_datum v (by omega)]

end Lockstep.Json
