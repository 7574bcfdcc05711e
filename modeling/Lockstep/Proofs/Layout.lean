import Lockstep.Timing
import Mathlib.Data.List.Basic

/-!
# Pieces of code and the labels in them

Lowered code is made of pieces that stand side by side in the code of a lane. `Stands` places a
piece at a position, and `LabelAt` says where a label is defined. In code whose labels are apart
(`LabelsApart`) a label has one position, so that every way of looking for it finds that position:
from the start of the code (`labelPosition?_eq`) and forwards in a window
(`firstLabel?_eq_some_iff`). The last definition in a window is `lastLabel?_eq_some_iff`.
-/

set_option autoImplicit false

namespace Lockstep

/-! ## Pieces -/

/-- A piece of code stands in some code from a position on. -/
def Stands (code : List Instruction) (p : Nat) (piece : List Instruction) : Prop :=
  ∃ before after, code = before ++ piece ++ after ∧ before.length = p

namespace Stands

variable {code piece other : List Instruction} {p : Nat} {i : Instruction}

theorem whole (code : List Instruction) : Stands code 0 code :=
  ⟨[], [], by simp, rfl⟩

/-- The first part of a piece stands where the piece does. -/
theorem left (h : Stands code p (piece ++ other)) : Stands code p piece := by
  obtain ⟨before, after, rfl, rfl⟩ := h
  exact ⟨before, other ++ after, by simp, rfl⟩

/-- The second part of a piece stands behind the first one. -/
theorem right (h : Stands code p (piece ++ other)) : Stands code (p + piece.length) other := by
  obtain ⟨before, after, rfl, rfl⟩ := h
  exact ⟨before ++ piece, after, by simp, by simp⟩

theorem tail (h : Stands code p (i :: piece)) : Stands code (p + 1) piece :=
  right (show Stands code p ([i] ++ piece) from h)

/-- A piece that stands in code can be read off it. -/
theorem get (h : Stands code p piece) {j : Nat} (hj : j < piece.length) :
    code[p + j]? = piece[j]? := by
  obtain ⟨before, after, rfl, rfl⟩ := h
  rw [List.append_assoc, List.getElem?_append_right (Nat.le_add_right _ _), Nat.add_sub_cancel_left,
    List.getElem?_append_left hj]

theorem head (h : Stands code p (i :: piece)) : code[p]? = some i := by
  have first := h.get (j := 0) (by simp)
  simpa using first

end Stands

/-! ## Labels -/

/-- A label is defined at a position. -/
def LabelAt (code : List Instruction) (l : Label) (p : Nat) : Prop := code[p]? = some (.label l)

/-- No label is defined at two positions. -/
def LabelsApart (code : List Instruction) : Prop :=
  ∀ l p q, LabelAt code l p → LabelAt code l q → p = q

/-- The first position at which a label is defined in some code. -/
def labelPosition? (code : List Instruction) (l : Label) : Option Nat :=
  code.findIdx? (·.defines l)

theorem Instruction.defines_iff {l : Label} {i : Instruction} :
    i.defines l = true ↔ i = .label l := by
  cases i <;> simp [defines, definedLabel]

/-- Code that defines no label twice has its labels apart. -/
theorem labelsApart_of_nodup {code : List Instruction}
    (h : (labelsOf code).Nodup) : LabelsApart code := by
  induction code with
  | nil =>
    intro l p q hp
    simp [LabelAt] at hp
  | cons i code ih =>
    intro l p q hp hq
    have later : ∀ r, LabelAt code l r → i ≠ .label l := by
      intro r hr hi
      subst hi
      have hmem : l ∈ labelsOf code :=
        List.mem_filterMap.2 ⟨_, List.mem_of_getElem? hr, rfl⟩
      have hlabel : (Instruction.label l).definedLabel = some l := rfl
      rw [labelsOf, List.filterMap_cons_some hlabel] at h
      exact (List.nodup_cons.1 h).1 hmem
    have rest : (labelsOf code).Nodup := by
      cases hd : i.definedLabel with
      | none => rwa [labelsOf, List.filterMap_cons_none hd] at h
      | some l' =>
        rw [labelsOf, List.filterMap_cons_some hd] at h
        exact (List.nodup_cons.1 h).2
    cases p with
    | zero =>
      have hi : i = .label l := by simpa [LabelAt] using hp
      cases q with
      | zero => rfl
      | succ q => exact absurd hi (later q (by simpa [LabelAt] using hq))
    | succ p =>
      cases q with
      | zero =>
        have hi : i = .label l := by simpa [LabelAt] using hq
        exact absurd hi (later p (by simpa [LabelAt] using hp))
      | succ q =>
        rw [ih rest l p q (by simpa [LabelAt] using hp) (by simpa [LabelAt] using hq)]

/-- If labels are apart, a label is found where it is defined. -/
theorem labelPosition?_eq {code : List Instruction} {l : Label} {p : Nat} (hc : LabelsApart code)
    (h : LabelAt code l p) : labelPosition? code l = some p := by
  obtain ⟨hlt, hp⟩ := List.getElem?_eq_some_iff.1 h
  refine List.findIdx?_eq_some_iff_getElem.2 ⟨hlt, Instruction.defines_iff.2 hp, ?_⟩
  intro j hj hdef
  have hjl : LabelAt code l j :=
    List.getElem?_eq_some_iff.2 ⟨Nat.lt_trans hj hlt, Instruction.defines_iff.1 hdef⟩
  exact absurd (hc l j p hjl h) (Nat.ne_of_lt hj)

/-! ## Labels in a window -/

section Window

variable {code : List Instruction} {start stop p : Nat} {l : Label}

/-- The labels of a window are those of the code between its ends. -/
theorem window_label_iff {j : Nat} :
    ((code.take stop).drop start)[j]? = some (.label l) ↔
      start + j < stop ∧ LabelAt code l (start + j) := by
  rw [List.getElem?_drop, List.getElem?_take, LabelAt]
  by_cases hstop : start + j < stop
  · rw [if_pos hstop, and_iff_right hstop]
  · rw [if_neg hstop]
    constructor
    · intro h
      cases h
    · intro h
      exact absurd h.1 hstop

/-- A search forward finds the first definition in its range. -/
theorem firstLabel?_eq_some_iff :
    firstLabel? code start stop l = some p ↔
      start ≤ p ∧ p < stop ∧ LabelAt code l p ∧ ∀ q, start ≤ q → q < p → ¬ LabelAt code l q := by
  rw [firstLabel?, Option.map_eq_some_iff]
  constructor
  · rintro ⟨j, hj, rfl⟩
    obtain ⟨hlt, hdef, hmin⟩ := List.findIdx?_eq_some_iff_getElem.1 hj
    obtain ⟨hstop, hlab⟩ := window_label_iff.1
      (List.getElem?_eq_some_iff.2 ⟨hlt, Instruction.defines_iff.1 hdef⟩)
    refine ⟨Nat.le_add_right _ _, hstop, hlab, ?_⟩
    intro q hq hqj hlab'
    obtain ⟨k, rfl⟩ := Nat.exists_eq_add_of_le hq
    have hwindow : ((code.take stop).drop start)[k]? = some (.label l) :=
      window_label_iff.2 ⟨Nat.lt_trans hqj hstop, hlab'⟩
    obtain ⟨hk, hget⟩ := List.getElem?_eq_some_iff.1 hwindow
    exact hmin k (by omega) (Instruction.defines_iff.2 hget)
  · rintro ⟨hs, hp, hlab, hmin⟩
    obtain ⟨j, rfl⟩ := Nat.exists_eq_add_of_le hs
    obtain ⟨hlt, hget⟩ := List.getElem?_eq_some_iff.1 (window_label_iff.2 ⟨hp, hlab⟩)
    refine ⟨j, List.findIdx?_eq_some_iff_getElem.2 ⟨hlt, Instruction.defines_iff.2 hget, ?_⟩, rfl⟩
    intro k hk hdef
    obtain ⟨-, hlab'⟩ := window_label_iff.1
      (List.getElem?_eq_some_iff.2 ⟨Nat.lt_trans hk hlt, Instruction.defines_iff.1 hdef⟩)
    exact hmin (start + k) (Nat.le_add_right _ _) (by omega) hlab'

/-- It fails exactly if there is none in its range. -/
theorem firstLabel?_eq_none_iff :
    firstLabel? code start stop l = none ↔ ∀ q, start ≤ q → q < stop → ¬ LabelAt code l q := by
  rw [firstLabel?, Option.map_eq_none_iff, List.findIdx?_eq_none_iff]
  constructor
  · intro h q hs hq hlab
    obtain ⟨j, rfl⟩ := Nat.exists_eq_add_of_le hs
    have hdef := h _ (List.mem_of_getElem? (window_label_iff.2 ⟨hq, hlab⟩))
    rw [Instruction.defines_iff.2 rfl] at hdef
    cases hdef
  · intro h i hi
    obtain ⟨j, hj⟩ := List.getElem?_of_mem hi
    rw [Bool.eq_false_iff]
    intro hdef
    rw [Instruction.defines_iff.1 hdef] at hj
    obtain ⟨hstop, hlab⟩ := window_label_iff.1 hj
    exact h (start + j) (Nat.le_add_right _ _) hstop hlab

/-- In code with its labels apart, a label in the window is the first one found. -/
theorem firstLabel?_eq (hc : LabelsApart code) (h : LabelAt code l p) (hs : start ≤ p)
    (hp : p < stop) : firstLabel? code start stop l = some p := by
  refine firstLabel?_eq_some_iff.2 ⟨hs, hp, h, ?_⟩
  intro q _ hq hlab
  exact absurd (hc l q p hlab h) (Nat.ne_of_lt hq)

/-- In code with its labels apart, a label outside of the window is not found in it. -/
theorem firstLabel?_eq_none (hc : LabelsApart code) (h : LabelAt code l p)
    (hout : p < start ∨ stop ≤ p) : firstLabel? code start stop l = none := by
  refine firstLabel?_eq_none_iff.2 ?_
  intro q hs hq hlab
  have := hc l q p hlab h
  omega

theorem lastIdx?_eq_none_iff {α : Type} {test : α → Bool} {as : List α} :
    lastIdx? test as = none ↔ ∀ a ∈ as, test a = false := by
  induction as with
  | nil => simp [lastIdx?]
  | cons b as ih =>
    cases hrest : lastIdx? test as with
    | some m =>
      have hno : ¬ ∀ a ∈ as, test a = false := by
        rw [← ih, hrest]
        simp
      simp only [lastIdx?, hrest, List.mem_cons, forall_eq_or_imp]
      simp [hno]
    | none =>
      have hall : ∀ a ∈ as, test a = false := ih.1 hrest
      cases hb : test b with
      | true => simp [lastIdx?, hrest, hb]
      | false => simpa [lastIdx?, hrest, hb] using hall

/-- What is found has the property, and nothing after it has. -/
theorem lastIdx?_spec {α : Type} {test : α → Bool} {as : List α} {n : Nat}
    (h : lastIdx? test as = some n) :
    (∃ a, as[n]? = some a ∧ test a = true) ∧
      ∀ (k : Nat) (a : α), n < k → as[k]? = some a → test a = false := by
  induction as generalizing n with
  | nil => cases h
  | cons b as ih =>
    cases hrest : lastIdx? test as with
    | some m =>
      simp only [lastIdx?, hrest, Option.some.injEq] at h
      subst h
      obtain ⟨hfound, hmax⟩ := ih hrest
      refine ⟨hfound, ?_⟩
      intro k a hk ha
      obtain ⟨k, rfl⟩ : ∃ j, k = j + 1 := ⟨k - 1, by omega⟩
      exact hmax k a (by omega) ha
    | none =>
      simp only [lastIdx?, hrest] at h
      split at h
      · rename_i hb
        cases h
        refine ⟨⟨b, rfl, hb⟩, ?_⟩
        intro k a hk ha
        obtain ⟨k, rfl⟩ : ∃ j, k = j + 1 := ⟨k - 1, by omega⟩
        exact lastIdx?_eq_none_iff.1 hrest a (List.mem_of_getElem? ha)
      · cases h

/-- An index is found exactly if it has the property and no later one has. -/
theorem lastIdx?_eq_some_iff {α : Type} {test : α → Bool} {as : List α} {n : Nat} :
    lastIdx? test as = some n ↔
      (∃ a, as[n]? = some a ∧ test a = true) ∧
        ∀ (k : Nat) (a : α), n < k → as[k]? = some a → test a = false := by
  refine ⟨lastIdx?_spec, ?_⟩
  rintro ⟨⟨a, ha, hta⟩, hmax⟩
  cases hfound : lastIdx? test as with
  | none =>
    rw [lastIdx?_eq_none_iff.1 hfound a (List.mem_of_getElem? ha)] at hta
    cases hta
  | some m =>
    obtain ⟨⟨b, hb, htb⟩, hmax'⟩ := lastIdx?_spec hfound
    rcases Nat.lt_trichotomy m n with hlt | rfl | hlt
    · rw [hmax' n a hlt ha] at hta
      cases hta
    · rfl
    · rw [hmax m b hlt hb] at htb
      cases htb

/-- A search backward finds the last definition in its range. -/
theorem lastLabel?_eq_some_iff :
    lastLabel? code start stop l = some p ↔
      start ≤ p ∧ p < stop ∧ LabelAt code l p ∧ ∀ q, p < q → q < stop → ¬ LabelAt code l q := by
  rw [lastLabel?, Option.map_eq_some_iff]
  constructor
  · rintro ⟨j, hj, rfl⟩
    obtain ⟨⟨i, hget, hdef⟩, hmax⟩ := lastIdx?_eq_some_iff.1 hj
    rw [Instruction.defines_iff.1 hdef] at hget
    obtain ⟨hstop, hlab⟩ := window_label_iff.1 hget
    refine ⟨Nat.le_add_right _ _, hstop, hlab, ?_⟩
    intro q hq hqstop hlab'
    obtain ⟨k, rfl⟩ : ∃ k, q = start + k := ⟨q - start, by omega⟩
    have hfalse := hmax k _ (by omega) (window_label_iff.2 ⟨hqstop, hlab'⟩)
    rw [Instruction.defines_iff.2 rfl] at hfalse
    cases hfalse
  · rintro ⟨hs, hp, hlab, hmax⟩
    obtain ⟨j, rfl⟩ := Nat.exists_eq_add_of_le hs
    have hwindow : ((code.take stop).drop start)[j]? = some (.label l) :=
      window_label_iff.2 ⟨hp, hlab⟩
    refine ⟨j, lastIdx?_eq_some_iff.2 ⟨⟨_, hwindow, Instruction.defines_iff.2 rfl⟩, ?_⟩, rfl⟩
    intro k i hk hi
    rw [Bool.eq_false_iff]
    intro hdef
    rw [Instruction.defines_iff.1 hdef] at hi
    obtain ⟨hstop, hlab'⟩ := window_label_iff.1 hi
    exact hmax (start + k) (by omega) hstop hlab'

/-- In code with its labels apart, a label before the window is not the last one in it. -/
theorem lastLabel?_eq_none (hc : LabelsApart code) (h : LabelAt code l p) (hout : p < start) :
    lastLabel? code start stop l = none := by
  cases hlast : lastLabel? code start stop l with
  | none => rfl
  | some q =>
    obtain ⟨hs, -, hlab, -⟩ := lastLabel?_eq_some_iff.1 hlast
    have := hc l q p hlab h
    omega

end Window

end Lockstep
