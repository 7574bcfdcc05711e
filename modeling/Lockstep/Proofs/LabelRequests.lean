import Lockstep.Label
import Mathlib.Data.List.Nodup

/-!
# Requests for labels

A label supply answers requests one after the other: for a bare index, or for labels with given
stems. The name of a label is its stem, an underscore and the digits of its index. A stem may have
underscores and digits itself, but digits have no underscore, so stem and index are read off a name
from its end (`Label.index?`) and no two pairs of them share a name (`Label.indexed_inj`).

`LabelSupply.calls` is the record of a run of requests, and `LabelCall.Served` says what one call of
it may look like. The main statement, `LabelSupply.labels_of_calls_apart`, is about whole runs: no
label is handed out twice, every call that is granted has an index of its own, and a call is refused
exactly for a stem that repeats an earlier one, and then takes nothing.
-/

set_option autoImplicit false

namespace Lockstep

/-! ## The index of a label -/

namespace Label

/-- The stem and the index of a label that `Label.indexed` gives. -/
def index? (l : Label) : Option (String × Nat) :=
  let reversed := l.name.toList.reverse
  let digits := (reversed.takeWhile Char.isDigit).reverse
  let index := Nat.ofDigitChars 10 digits 0
  match reversed.dropWhile Char.isDigit with
  | [] => none
  | mark :: stem =>
    -- A numeral with zeros in front is not the text of an index.
    if mark = '_' ∧ Nat.toDigits 10 index = digits then some (String.ofList stem.reverse, index)
    else none

theorem toList_name_indexed (stem : String) (k : Nat) :
    (indexed stem k).name.toList = stem.toList ++ '_' :: Nat.toDigits 10 k := by
  simp [indexed]

theorem index?_indexed (stem : String) (k : Nat) : (indexed stem k).index? = some (stem, k) := by
  have hdigits : ∀ c ∈ (Nat.toDigits 10 k).reverse, c.isDigit = true := by
    intro c hc
    exact Nat.isDigit_of_mem_toDigits (by omega) (by omega) (List.mem_reverse.1 hc)
  have hreversed : (indexed stem k).name.toList.reverse =
      (Nat.toDigits 10 k).reverse ++ '_' :: stem.toList.reverse := by
    simp [toList_name_indexed]
  unfold index?
  simp only [hreversed]
  rw [List.takeWhile_append_of_pos hdigits, List.dropWhile_append_of_pos hdigits]
  simp [Nat.ofDigitChars_ten_toDigits]

theorem eq_of_toList_name {l l' : Label} (h : l.name.toList = l'.name.toList) : l = l' := by
  cases l
  cases l'
  exact congrArg Label.mk (String.toList_inj.1 h)

theorem eq_indexed_of_index? {l : Label} {stem : String} {k : Nat}
    (h : l.index? = some (stem, k)) : l = indexed stem k := by
  have hsplit := List.takeWhile_append_dropWhile (p := Char.isDigit) (l := l.name.toList.reverse)
  unfold index? at h
  simp only at h
  split at h
  · cases h
  · rename_i mark rest hrest
    split at h
    · rename_i hcond
      obtain ⟨rfl, hdigits⟩ := hcond
      simp only [Option.some.injEq, Prod.mk.injEq] at h
      obtain ⟨rfl, rfl⟩ := h
      -- The name is the stem, the mark and the digits, all found from the end.
      apply eq_of_toList_name
      rw [toList_name_indexed, hdigits]
      rw [hrest] at hsplit
      have hreverse := congrArg List.reverse hsplit
      simpa using hreverse.symm
    · cases h

/-- Stem and index are read off a label, whatever the stem is made of. -/
theorem indexed_inj {stem stem' : String} {k k' : Nat} (h : indexed stem k = indexed stem' k') :
    stem = stem' ∧ k = k' := by
  have hindex := congrArg index? h
  rw [index?_indexed, index?_indexed] at hindex
  exact Prod.mk.inj (Option.some.inj hindex)

/-- Stems that are apart have labels that are apart at any index. -/
theorem nodup_indexed {stems : List String} (h : stems.Nodup) (k : Nat) :
    (stems.map (indexed · k)).Nodup := by
  apply List.Nodup.map_on _ h
  intro stem _ stem' _ heq
  exact (indexed_inj heq).1

end Label

/-! ## The first element that repeats another -/

section Repetition

variable {α : Type} {seen l : List α} {x : α}

/-- Of the elements that are equal to one before them, the given element is the first. -/
def FirstRepeat (l : List α) (x : α) : Prop :=
  ∃ before after, l = before ++ x :: after ∧ before.Nodup ∧ x ∈ before

theorem FirstRepeat.not_nodup (h : FirstRepeat l x) : ¬ l.Nodup := by
  obtain ⟨before, after, rfl, -, hmem⟩ := h
  intro hnodup
  exact (List.nodup_append.1 hnodup).2.2 x hmem x List.mem_cons_self rfl

variable [DecidableEq α]

/-- Nothing is found exactly if the elements are apart from one another and from those seen. -/
theorem firstRepeated?_eq_none_iff :
    firstRepeated? seen l = none ↔ l.Nodup ∧ ∀ x ∈ l, x ∉ seen := by
  induction l generalizing seen with
  | nil => simp [firstRepeated?]
  | cons first rest ih =>
    rw [firstRepeated?]
    by_cases hseen : first ∈ seen
    · simp [hseen]
    · -- The first element is among those seen when the rest is searched.
      rw [if_neg hseen, ih, List.nodup_cons]
      constructor
      · rintro ⟨hnodup, hrest⟩
        refine ⟨⟨fun hmem => hrest first hmem List.mem_cons_self, hnodup⟩, ?_⟩
        intro x hx
        rcases List.mem_cons.1 hx with rfl | hx
        · exact hseen
        · exact fun h => hrest x hx (List.mem_cons_of_mem _ h)
      · rintro ⟨⟨hfirst, hnodup⟩, hall⟩
        refine ⟨hnodup, ?_⟩
        intro x hx hmem
        rcases List.mem_cons.1 hmem with rfl | hmem
        · exact hfirst hx
        · exact hall x (List.mem_cons_of_mem _ hx) hmem

/-- What is found repeats one of `seen` or one before it, and nothing before it does. -/
theorem exists_of_firstRepeated? (h : firstRepeated? seen l = some x) :
    ∃ before after, l = before ++ x :: after ∧ firstRepeated? seen before = none ∧
      (x ∈ seen ∨ x ∈ before) := by
  induction l generalizing seen with
  | nil => cases h
  | cons first rest ih =>
    rw [firstRepeated?] at h
    by_cases hseen : first ∈ seen
    · rw [if_pos hseen] at h
      obtain rfl := Option.some.inj h
      exact ⟨[], rest, rfl, rfl, .inl hseen⟩
    · rw [if_neg hseen] at h
      obtain ⟨before, after, rfl, hnone, hmem⟩ := ih h
      refine ⟨first :: before, after, rfl, ?_, ?_⟩
      · rwa [firstRepeated?, if_neg hseen]
      · rw [List.mem_cons] at hmem ⊢
        tauto

theorem firstRepeat_of_firstRepeated? (h : firstRepeated? [] l = some x) : FirstRepeat l x := by
  obtain ⟨before, after, rfl, hnone, hmem⟩ := exists_of_firstRepeated? h
  exact ⟨before, after, rfl, (firstRepeated?_eq_none_iff.1 hnone).1, by simpa using hmem⟩

end Repetition

/-! ## Calls -/

/-- What a supply is asked for. -/
inductive LabelRequest where
  /-- An index and nothing else. -/
  | index
  /-- A label for each of the stems. -/
  | labels (stems : List String)
deriving DecidableEq

/-- What a supply answers. -/
inductive LabelAnswer where
  | index (k : Nat)
  | labels (labels : List Label)
  | refused (error : LabelError)
deriving DecidableEq

/-- What a request is given at an index: the index itself, or a label for each stem. -/
inductive LabelRequest.Gets : LabelRequest → Nat → LabelAnswer → Prop
  | index (k : Nat) : Gets .index k (.index k)
  | labels (stems : List String) (k : Nat) :
      Gets (.labels stems) k (.labels (stems.map (.indexed · k)))

/-- A request with its answer, and the supply before and after it. -/
structure LabelCall where
  request : LabelRequest
  before : LabelSupply
  answer : LabelAnswer
  after : LabelSupply
deriving DecidableEq

namespace LabelSupply

/-- Answer a request. -/
def serve (s : LabelSupply) : LabelRequest → LabelAnswer × LabelSupply
  | .index => (.index s.takeIndex.1, s.takeIndex.2)
  | .labels stems =>
    match s.takeLabels stems with
    | (.ok labels, after) => (.labels labels, after)
    | (.error e, after) => (.refused e, after)

/-- The calls of requests that are made one after the other. -/
def calls (s : LabelSupply) : List LabelRequest → List LabelCall
  | [] => []
  | r :: rest => ⟨r, s, (s.serve r).1, (s.serve r).2⟩ :: (s.serve r).2.calls rest

end LabelSupply

namespace LabelCall

/-- The labels that a call hands out. -/
def labels (c : LabelCall) : List Label :=
  match c.answer with
  | .labels labels => labels
  | _ => []

/-- The index that a call takes, unless it is refused. -/
def index? (c : LabelCall) : Option Nat :=
  match c.answer with
  | .refused _ => none
  | _ => some c.before.next

/-- All that a call can be: it takes the next index, for itself or for the labels of stems that are
apart, or it is refused for the first stem that repeats another and leaves the supply alone. -/
inductive Served : LabelCall → Prop
  | index (s : LabelSupply) : Served ⟨.index, s, .index s.next, ⟨s.next + 1⟩⟩
  | labels (s : LabelSupply) {stems : List String} : stems.Nodup →
      Served ⟨.labels stems, s, .labels (stems.map (.indexed · s.next)), ⟨s.next + 1⟩⟩
  | refused (s : LabelSupply) {stems : List String} {stem : String} : FirstRepeat stems stem →
      Served ⟨.labels stems, s, .refused (.repeatedStem stem), s⟩

end LabelCall

namespace LabelSupply

variable {s : LabelSupply} {requests : List LabelRequest} {c : LabelCall}

theorem served_serve (s : LabelSupply) (r : LabelRequest) :
    LabelCall.Served ⟨r, s, (s.serve r).1, (s.serve r).2⟩ := by
  cases r with
  | index => exact .index s
  | labels stems =>
    cases h : firstRepeated? [] stems with
    | none =>
      have hserve : s.serve (.labels stems) =
          (.labels (stems.map (.indexed · s.next)), ⟨s.next + 1⟩) := by
        simp [serve, takeLabels, h, takeIndex]
      rw [hserve]
      exact .labels s (firstRepeated?_eq_none_iff.1 h).1
    | some stem =>
      have hserve : s.serve (.labels stems) = (.refused (.repeatedStem stem), s) := by
        simp [serve, takeLabels, h]
      rw [hserve]
      exact .refused s (firstRepeat_of_firstRepeated? h)

theorem served_of_mem_calls (h : c ∈ s.calls requests) : c.Served := by
  induction requests generalizing s with
  | nil => cases h
  | cons r rest ih =>
    rcases List.mem_cons.1 h with rfl | h
    · exact served_serve s r
    · exact ih h

end LabelSupply

namespace LabelCall

variable {c d : LabelCall}

theorem Served.before_le_after (h : c.Served) : c.before.next ≤ c.after.next := by
  cases h with
  | index s => exact Nat.le_succ s.next
  | labels s _ => exact Nat.le_succ s.next
  | refused s _ => exact Nat.le_refl s.next

/-- A call that takes an index takes the next one and only that, and is given what belongs to it. -/
theorem Served.of_index? {k : Nat} (h : c.Served) (hk : c.index? = some k) :
    c.before.next = k ∧ c.after.next = k + 1 ∧ c.request.Gets k c.answer := by
  cases h with
  | refused s _ => cases hk
  | index s =>
    obtain rfl := Option.some.inj hk
    exact ⟨rfl, rfl, .index s.next⟩
  | labels s _ =>
    obtain rfl := Option.some.inj hk
    exact ⟨rfl, rfl, .labels _ s.next⟩

/-- All labels of a call have the index that it takes. -/
theorem Served.exists_of_mem_labels {l : Label} (h : c.Served) (hl : l ∈ c.labels) :
    ∃ stem k, c.index? = some k ∧ l = .indexed stem k := by
  cases h with
  | index s => cases hl
  | refused s _ => cases hl
  | labels s _ =>
    obtain ⟨stem, -, rfl⟩ := List.mem_map.1 hl
    exact ⟨stem, s.next, rfl, rfl⟩

theorem Served.nodup_labels (h : c.Served) : c.labels.Nodup := by
  cases h with
  | index s => exact List.nodup_nil
  | refused s _ => exact List.nodup_nil
  | labels s hstems => exact Label.nodup_indexed hstems s.next

/-- A call that starts where another one has ended has another index. -/
theorem Served.index_lt {k j : Nat} (hc : c.Served) (hd : d.Served)
    (hle : c.after.next ≤ d.before.next) (hk : c.index? = some k) (hj : d.index? = some j) :
    k < j := by
  obtain ⟨-, hafter, -⟩ := hc.of_index? hk
  obtain ⟨hbefore, -, -⟩ := hd.of_index? hj
  omega

/-- A call is refused exactly if two of its stems are equal. -/
theorem Served.refused_iff (h : c.Served) :
    (∃ e, c.answer = .refused e) ↔ ∃ stems, c.request = .labels stems ∧ ¬ stems.Nodup := by
  cases h with
  | index s => simp
  | labels s hstems => simpa using hstems
  | refused s hfirst => simpa using hfirst.not_nodup

/-- A refusal leaves the supply as it was and names the first stem that repeats another. -/
theorem Served.of_refused {e : LabelError} (h : c.Served) (he : c.answer = .refused e) :
    c.after = c.before ∧
      ∃ stems stem, c.request = .labels stems ∧ FirstRepeat stems stem ∧
        e = .repeatedStem stem := by
  cases h with
  | index s => cases he
  | labels s _ => cases he
  | refused s hfirst =>
    obtain rfl := LabelAnswer.refused.inj he
    exact ⟨rfl, _, _, rfl, hfirst, rfl⟩

end LabelCall

/-! ## Runs -/

namespace LabelSupply

variable {s : LabelSupply} {requests : List LabelRequest} {c : LabelCall}

theorem next_le_of_mem_calls (h : c ∈ s.calls requests) : s.next ≤ c.before.next := by
  induction requests generalizing s with
  | nil => cases h
  | cons r rest ih =>
    rcases List.mem_cons.1 h with rfl | h
    · exact Nat.le_refl _
    · exact Nat.le_trans (served_serve s r).before_le_after (ih h)

/-- A later call starts with what the earlier ones have left. -/
theorem calls_pairwise (s : LabelSupply) (requests : List LabelRequest) :
    (s.calls requests).Pairwise fun c d => c.after.next ≤ d.before.next := by
  induction requests generalizing s with
  | nil => exact .nil
  | cons r rest ih => exact .cons (fun d hd => next_le_of_mem_calls hd) (ih _)

/-- The indices that are taken in a run increase. -/
theorem indices_pairwise (s : LabelSupply) (requests : List LabelRequest) :
    ((s.calls requests).filterMap LabelCall.index?).Pairwise (· < ·) := by
  rw [List.pairwise_filterMap]
  refine (calls_pairwise s requests).imp_of_mem ?_
  intro c d hc hd hle k hk j hj
  exact (served_of_mem_calls hc).index_lt (served_of_mem_calls hd) hle hk hj

theorem nodup_labels_of_calls (s : LabelSupply) (requests : List LabelRequest) :
    ((s.calls requests).flatMap LabelCall.labels).Nodup := by
  rw [List.nodup_flatMap]
  refine ⟨fun c hc => (served_of_mem_calls hc).nodup_labels, ?_⟩
  refine (calls_pairwise s requests).imp_of_mem ?_
  intro c d hc hd hle l hl hl'
  obtain ⟨stem, k, hk, rfl⟩ := (served_of_mem_calls hc).exists_of_mem_labels hl
  obtain ⟨stem', j, hj, heq⟩ := (served_of_mem_calls hd).exists_of_mem_labels hl'
  have hlt := (served_of_mem_calls hc).index_lt (served_of_mem_calls hd) hle hk hj
  have hsame := (Label.indexed_inj heq).2
  omega

/-- In a run of requests no label is handed out twice. Each call that is granted takes an index that
no other call takes, and is given this index itself or a label with this index for each stem. A call
is refused if and only if two of its stems are equal; the refusal names the first stem that repeats
another and leaves the supply as it was. -/
theorem labels_of_calls_apart (s : LabelSupply) (requests : List LabelRequest) :
    ((s.calls requests).flatMap LabelCall.labels).Nodup ∧
    ((s.calls requests).filterMap LabelCall.index?).Nodup ∧
    ∀ c ∈ s.calls requests,
      (∀ k, c.index? = some k → c.request.Gets k c.answer) ∧
      ((∃ e, c.answer = .refused e) ↔ ∃ stems, c.request = .labels stems ∧ ¬ stems.Nodup) ∧
      ∀ e, c.answer = .refused e →
        c.after = c.before ∧
          ∃ stems stem, c.request = .labels stems ∧ FirstRepeat stems stem ∧
            e = .repeatedStem stem := by
  refine ⟨nodup_labels_of_calls s requests, (indices_pairwise s requests).imp Nat.ne_of_lt, ?_⟩
  intro c hc
  have hserved := served_of_mem_calls hc
  refine ⟨?_, hserved.refused_iff, fun e he => hserved.of_refused he⟩
  intro k hk
  exact (hserved.of_index? hk).2.2

/-- Stems with underscores and digits in them, some of them in more than one request. -/
def underscoredRequests : List LabelRequest :=
  [.labels ["a", "a_1"], .index, .labels ["a_1", "b", "b", "a_1"], .labels ["a", "a_1", "a_1_0"]]

theorem underscoredRequests_apart :
    (fresh.calls underscoredRequests).map LabelCall.answer =
      [.labels [⟨"a_0"⟩, ⟨"a_1_0"⟩], .index 1, .refused (.repeatedStem "b"),
        .labels [⟨"a_2"⟩, ⟨"a_1_2"⟩, ⟨"a_1_0_2"⟩]] ∧
    ((fresh.calls underscoredRequests).flatMap LabelCall.labels).Nodup ∧
    ∀ c ∈ fresh.calls underscoredRequests, ∀ e, c.answer = .refused e → c.after = c.before := by
  obtain ⟨hlabels, -, hcalls⟩ := labels_of_calls_apart fresh underscoredRequests
  refine ⟨by decide, hlabels, ?_⟩
  intro c hc e he
  exact ((hcalls c hc).2.2 e he).1

end LabelSupply

end Lockstep
