import Lockstep.Rendezvous
import Mathlib.Data.List.Dedup
import Mathlib.Data.List.Nodup

/-!
# The meetings of a function

The meetings of a function are gathered from the blocks that its lanes declare, at any depth and in
groups of any lane. `Roster.Gathers` says what they come to: one meeting for each block, in
ascending order, with all the lanes that are declared for the block anywhere, in ascending order.
One more part of a block keeps this (`Gathers.enroll`), so it holds of all of them
(`gathers_ofLanes`).
-/

set_option autoImplicit false

namespace Lockstep

/-! ## Parts of blocks -/

/-- A lane's part of a concurrent block, and the lanes that it declares for the block. -/
structure BlockPart where
  block : BlockId
  lanes : List LaneId
  body : List Segment

mutual

/-- The parts of blocks in a segment, in order; `keeps` says whose groups count. -/
def Segment.blockParts (keeps : LaneId → Bool) : Segment → List BlockPart
  | .op _ => []
  | .concurrent block lanes body => ⟨block, lanes, body⟩ :: blockPartsAll keeps body
  | .group owner body => if keeps owner then blockPartsAll keeps body else []

/-- The parts of blocks in segments in a row. -/
def blockPartsAll (keeps : LaneId → Bool) : List Segment → List BlockPart
  | [] => []
  | s :: rest => s.blockParts keeps ++ blockPartsAll keeps rest

end

/-- All parts of blocks in the lanes of a function, whoever their groups are for. -/
def declarations (lanes : List (LaneId × List Segment)) : List BlockPart :=
  lanes.flatMap fun lane => blockPartsAll (fun _ => true) lane.2

section BlockParts

variable (keeps : LaneId → Bool)

@[simp]
theorem blockPartsAll_nil : blockPartsAll keeps [] = [] := by
  rw [blockPartsAll]

@[simp]
theorem blockPartsAll_cons (s : Segment) (rest : List Segment) :
    blockPartsAll keeps (s :: rest) = s.blockParts keeps ++ blockPartsAll keeps rest := by
  rw [blockPartsAll]

@[simp]
theorem blockPartsAll_append (first others : List Segment) :
    blockPartsAll keeps (first ++ others) =
      blockPartsAll keeps first ++ blockPartsAll keeps others := by
  induction first with
  | nil => simp
  | cons s first ih => simp [ih]

@[simp]
theorem blockPartsAll_ops (code : List Instruction) :
    blockPartsAll keeps (Segment.ops code) = [] := by
  induction code with
  | nil => exact blockPartsAll_nil keeps
  | cons i code ih =>
    show (Segment.op i).blockParts keeps ++ blockPartsAll keeps (Segment.ops code) = []
    rw [ih, Segment.blockParts]
    rfl

mutual

/-- What is kept of the blocks in a segment is some of them. -/
theorem Segment.blockParts_subset : ∀ s : Segment,
    s.blockParts keeps ⊆ s.blockParts fun _ => true
  | .op _ => by
    rw [Segment.blockParts]
    exact List.nil_subset _
  | .concurrent block lanes body => by
    rw [Segment.blockParts, Segment.blockParts]
    exact List.cons_subset_cons _ (blockPartsAll_subset body)
  | .group owner body => by
    rw [Segment.blockParts, Segment.blockParts, if_pos rfl]
    split
    · exact blockPartsAll_subset body
    · exact List.nil_subset _

/-- What a choice of groups keeps is among all that is declared. -/
theorem blockPartsAll_subset : ∀ segments : List Segment,
    blockPartsAll keeps segments ⊆ blockPartsAll (fun _ => true) segments
  | [] => by
    rw [blockPartsAll]
    exact List.nil_subset _
  | s :: rest => by
    rw [blockPartsAll, blockPartsAll]
    refine List.append_subset.2 ⟨?_, ?_⟩
    · exact List.subset_append_of_subset_left _ (Segment.blockParts_subset s)
    · exact List.subset_append_of_subset_right _ (blockPartsAll_subset rest)

end

end BlockParts

/-! ## Lanes in ascending order -/

/-- Things that are told apart by a word are in one of two orders. -/
theorem index_lt_of_not_lt {α : Type} {index : α → UInt32} (hinj : Function.Injective index)
    {a b : α} (h : ¬ index a < index b) (hne : a ≠ b) : index b < index a :=
  UInt32.lt_of_le_of_ne (UInt32.not_lt.1 h) fun heq => hne (hinj heq).symm

theorem LaneId.index_injective : Function.Injective LaneId.index := by
  rintro ⟨a⟩ ⟨b⟩ rfl
  rfl

theorem BlockId.index_injective : Function.Injective BlockId.index := by
  rintro ⟨a⟩ ⟨b⟩ rfl
  rfl

section InsertLane

variable {lane l : LaneId} {ls : List LaneId}

theorem mem_insertLane : l ∈ insertLane lane ls ↔ l = lane ∨ l ∈ ls := by
  induction ls with
  | nil => simp [insertLane]
  | cons l' ls ih =>
    rw [insertLane]
    split
    · simp
    · split
      · rename_i heq
        simp [heq]
      · simp only [List.mem_cons, ih]
        tauto

/-- Lanes that are inserted stay in ascending order. -/
theorem insertLane_ascending (h : ls.Pairwise (·.index < ·.index)) :
    (insertLane lane ls).Pairwise (·.index < ·.index) := by
  induction ls with
  | nil => exact List.pairwise_singleton _ _
  | cons l' ls ih =>
    obtain ⟨hhead, htail⟩ := List.pairwise_cons.1 h
    rw [insertLane]
    split
    · rename_i hlt
      apply List.pairwise_cons.2 ⟨?_, h⟩
      intro x hx
      rcases List.mem_cons.1 hx with rfl | hx
      · exact hlt
      · exact UInt32.lt_trans hlt (hhead x hx)
    · rename_i hnot
      split
      · exact h
      · rename_i hne
        apply List.pairwise_cons.2 ⟨?_, ih htail⟩
        intro x hx
        rcases mem_insertLane.1 hx with rfl | hx
        · exact index_lt_of_not_lt LaneId.index_injective hnot hne
        · exact hhead x hx

theorem mem_foldr_insertLane {lanes : List LaneId} :
    l ∈ lanes.foldr insertLane ls ↔ l ∈ lanes ∨ l ∈ ls := by
  induction lanes with
  | nil => simp
  | cons lane lanes ih => rw [List.foldr_cons, mem_insertLane, ih, List.mem_cons, or_assoc]

theorem foldr_insertLane_ascending (lanes : List LaneId) (h : ls.Pairwise (·.index < ·.index)) :
    (lanes.foldr insertLane ls).Pairwise (·.index < ·.index) := by
  induction lanes with
  | nil => exact h
  | cons lane lanes ih => exact insertLane_ascending ih

end InsertLane

/-! ## Enrolling a block -/

namespace Roster

/-- A block is among the meetings. -/
def Has (roster : Roster) (block : BlockId) : Prop := ∃ m ∈ roster, m.block = block

/-- The meetings are in ascending order of their blocks. -/
def Ascending (roster : Roster) : Prop := roster.Pairwise (·.block.index < ·.block.index)

section Enroll

variable {roster : Roster} {block b : BlockId} {lanes : List LaneId} {m m' : Meeting}

theorem has_cons : Has (m :: roster) b ↔ m.block = b ∨ roster.Has b := by
  simp [Has]

/-- The block that is enrolled comes to those that were there before. -/
theorem has_enroll_iff : (enroll block lanes roster).Has b ↔ b = block ∨ roster.Has b := by
  induction roster with
  | nil => simp [enroll, Has, eq_comm]
  | cons m ms ih =>
    rw [enroll]
    split
    · simp only [has_cons, eq_comm]
    · split
      · rename_i heq
        simp only [has_cons, ← heq, eq_comm, or_self_left]
      · simp only [has_cons, ih]
        tauto

/-- Blocks that come before all meetings are not among them. -/
theorem Ascending.not_has (h : Ascending (m :: roster)) (hlt : block.index < m.block.index) :
    ¬ Has (m :: roster) block := by
  obtain ⟨hhead, -⟩ := List.pairwise_cons.1 h
  rintro ⟨m', hm', rfl⟩
  rcases List.mem_cons.1 hm' with rfl | hm'
  · exact UInt32.lt_irrefl _ hlt
  · exact UInt32.lt_irrefl _ (UInt32.lt_trans hlt (hhead m' hm'))

/-- Meetings stay in the order of their blocks. -/
theorem Ascending.enroll (h : roster.Ascending) (block : BlockId) (lanes : List LaneId) :
    (enroll block lanes roster).Ascending := by
  induction roster with
  | nil => exact List.pairwise_singleton _ _
  | cons m ms ih =>
    obtain ⟨hhead, htail⟩ := List.pairwise_cons.1 h
    rw [Roster.enroll]
    split
    · rename_i hlt
      apply List.pairwise_cons.2 ⟨?_, h⟩
      intro m' hm'
      rcases List.mem_cons.1 hm' with rfl | hm'
      · exact hlt
      · exact UInt32.lt_trans hlt (hhead m' hm')
    · rename_i hnot
      split
      · rename_i heq
        exact List.pairwise_cons.2 ⟨heq ▸ hhead, htail⟩
      · rename_i hne
        apply List.pairwise_cons.2 ⟨?_, ih htail⟩
        intro m' hm'
        rcases has_enroll_iff.1 ⟨m', hm', rfl⟩ with heq | ⟨m'', hm'', heq⟩
        · rw [heq]
          exact index_lt_of_not_lt BlockId.index_injective hnot hne
        · rw [← heq]
          exact hhead m'' hm''

/-- What is among the meetings after a block is enrolled: the others, and the block with the lanes
that it had before and the new ones. -/
theorem mem_enroll (h : roster.Ascending) (hm : m ∈ enroll block lanes roster) :
    (m ∈ roster ∧ m.block ≠ block) ∨
      (¬ roster.Has block ∧ m = ⟨block, lanes.foldr insertLane []⟩) ∨
      ∃ old ∈ roster, old.block = block ∧ m = ⟨block, lanes.foldr insertLane old.lanes⟩ := by
  induction roster with
  | nil =>
    refine .inr (.inl ⟨?_, List.mem_singleton.1 hm⟩)
    rintro ⟨_, hmem, -⟩
    cases hmem
  | cons m₀ ms ih =>
    obtain ⟨hhead, htail⟩ := List.pairwise_cons.1 h
    rw [Roster.enroll] at hm
    -- The block comes before the first meeting, has that meeting, or is enrolled further down.
    split at hm
    · rename_i hlt
      rcases List.mem_cons.1 hm with rfl | hm
      · exact .inr (.inl ⟨h.not_has hlt, rfl⟩)
      · refine .inl ⟨hm, ?_⟩
        intro heq
        exact h.not_has hlt ⟨m, hm, heq⟩
    · split at hm
      · rename_i heq
        rcases List.mem_cons.1 hm with rfl | hm
        · exact .inr (.inr ⟨m₀, List.mem_cons_self, heq.symm, rfl⟩)
        · refine .inl ⟨List.mem_cons_of_mem m₀ hm, ?_⟩
          intro hsame
          have hlt := hhead m hm
          rw [hsame, heq] at hlt
          exact UInt32.lt_irrefl _ hlt
      · rename_i hne
        rcases List.mem_cons.1 hm with rfl | hm
        · exact .inl ⟨List.mem_cons_self, fun heq => hne heq.symm⟩
        · rcases ih htail hm with ⟨hmem, hother⟩ | ⟨hnew, rfl⟩ | ⟨old, hold, hsame, rfl⟩
          · exact .inl ⟨List.mem_cons_of_mem m₀ hmem, hother⟩
          · refine .inr (.inl ⟨?_, rfl⟩)
            rw [has_cons]
            rintro (heq | hhas)
            · exact hne heq.symm
            · exact hnew hhas
          · exact .inr (.inr ⟨old, List.mem_cons_of_mem m₀ hold, hsame, rfl⟩)

end Enroll

/-! ## Gathered meetings -/

/-- Meetings that are gathered from the parts of blocks in some lanes. -/
structure Gathers (declared : List BlockPart) (roster : Roster) : Prop where
  /-- The meetings are in ascending order, so there is one for each block. -/
  ascending : roster.Ascending
  /-- The blocks are those that have a part. -/
  has_iff : ∀ b, roster.Has b ↔ ∃ d ∈ declared, d.block = b
  /-- The lanes of a meeting are in ascending order, so each is there once. -/
  lanes_ascending : ∀ m ∈ roster, m.lanes.Pairwise (·.index < ·.index)
  /-- The lanes of a meeting are those that any part declares for its block. -/
  mem_lanes_iff : ∀ m ∈ roster, ∀ l, l ∈ m.lanes ↔ ∃ d ∈ declared, d.block = m.block ∧ l ∈ d.lanes

namespace Gathers

variable {declared : List BlockPart} {roster : Roster}

theorem nil : Gathers [] [] where
  ascending := List.Pairwise.nil
  has_iff := by simp [Has]
  lanes_ascending := by simp
  mem_lanes_iff := by simp

/-- One more part of a block. -/
theorem enroll (h : roster.Gathers declared) (d : BlockPart) :
    (Roster.enroll d.block d.lanes roster).Gathers (declared ++ [d]) where
  ascending := h.ascending.enroll d.block d.lanes
  has_iff b := by
    rw [has_enroll_iff, h.has_iff]
    simp only [List.mem_append, List.mem_singleton, or_and_right, exists_or, exists_eq_left]
    rw [eq_comm, or_comm]
  lanes_ascending m hm := by
    rcases mem_enroll h.ascending hm with ⟨hmem, -⟩ | ⟨-, rfl⟩ | ⟨old, hold, -, rfl⟩
    · exact h.lanes_ascending m hmem
    · exact foldr_insertLane_ascending d.lanes List.Pairwise.nil
    · exact foldr_insertLane_ascending d.lanes (h.lanes_ascending old hold)
  mem_lanes_iff m hm l := by
    simp only [List.mem_append, List.mem_singleton, or_and_right, exists_or, exists_eq_left]
    rcases mem_enroll h.ascending hm with ⟨hmem, hother⟩ | ⟨hnew, rfl⟩ | ⟨old, hold, hsame, rfl⟩
    · rw [h.mem_lanes_iff m hmem]
      simp [Ne.symm hother]
    · have hnone : ¬ ∃ d' ∈ declared, d'.block = d.block ∧ l ∈ d'.lanes := by
        rintro ⟨d', hd', hblock, -⟩
        exact hnew ((h.has_iff d.block).2 ⟨d', hd', hblock⟩)
      rw [mem_foldr_insertLane]
      simp [hnone]
    · have hlanes := h.mem_lanes_iff old hold l
      rw [hsame] at hlanes
      rw [mem_foldr_insertLane, hlanes]
      simp only [true_and]
      exact or_comm

/-- Blocks that are enrolled one by one are gathered in the end. -/
theorem enrollAll (h : roster.Gathers declared) (more : List BlockPart) :
    (more.foldl (fun roster d => Roster.enroll d.block d.lanes roster) roster).Gathers
      (declared ++ more) := by
  induction more generalizing declared roster with
  | nil => rwa [List.append_nil]
  | cons d more ih =>
    have hmore := ih (h.enroll d)
    rwa [List.append_assoc] at hmore

/-- There are as many meetings as there are different blocks. -/
theorem length_eq (h : roster.Gathers declared) :
    roster.length = (declared.map BlockPart.block).dedup.length := by
  have hnodup : (roster.map Meeting.block).Nodup := by
    refine List.pairwise_map.2 (h.ascending.imp ?_)
    intro m m' hlt heq
    rw [heq] at hlt
    exact UInt32.lt_irrefl _ hlt
  have hsame : ∀ b, b ∈ roster.map Meeting.block ↔ b ∈ (declared.map BlockPart.block).dedup := by
    intro b
    rw [List.mem_dedup, List.mem_map, List.mem_map]
    exact h.has_iff b
  rw [← List.length_map Meeting.block]
  exact ((List.perm_ext_iff_of_nodup hnodup (List.nodup_dedup _)).2 hsame).length_eq

end Gathers

mutual

theorem collect_eq_foldl : ∀ (s : Segment) (roster : Roster),
    collect roster s =
      (s.blockParts fun _ => true).foldl (fun roster d => enroll d.block d.lanes roster) roster
  | .op _, roster => by rw [collect, Segment.blockParts, List.foldl_nil]
  | .concurrent block lanes body, roster => by
    rw [collect, Segment.blockParts, List.foldl_cons, collectAll_eq_foldl body]
  | .group _ body, roster => by
    rw [collect, Segment.blockParts, if_pos rfl, collectAll_eq_foldl body]

theorem collectAll_eq_foldl : ∀ (segments : List Segment) (roster : Roster),
    collectAll roster segments = (blockPartsAll (fun _ => true) segments).foldl
      (fun roster d => enroll d.block d.lanes roster) roster
  | [], roster => by rw [collectAll, blockPartsAll, List.foldl_nil]
  | s :: rest, roster => by
    rw [collectAll, blockPartsAll, List.foldl_append, collect_eq_foldl s,
      collectAll_eq_foldl rest]

end

/-- The meetings of a function are gathered from all parts of blocks in its lanes. -/
theorem gathers_ofLanes (lanes : List (LaneId × List Segment)) :
    (ofLanes lanes).Gathers (declarations lanes) := by
  have hall : ofLanes lanes =
      (declarations lanes).foldl (fun roster d => enroll d.block d.lanes roster) [] := by
    unfold ofLanes declarations
    generalize ([] : Roster) = start
    induction lanes generalizing start with
    | nil => rfl
    | cons lane lanes ih =>
      rw [List.foldl_cons, ih, List.flatMap_cons, List.foldl_append, collectAll_eq_foldl]
  rw [hall]
  exact Gathers.nil.enrollAll (declarations lanes)

/-- All blocks of a lane are among the meetings of its function. -/
theorem ofLanes_has {lanes : List (LaneId × List Segment)} {lane : LaneId × List Segment}
    (hlane : lane ∈ lanes) (keeps : LaneId → Bool) :
    ∀ d ∈ blockPartsAll keeps lane.2, (ofLanes lanes).Has d.block := by
  intro d hd
  apply ((gathers_ofLanes lanes).has_iff d.block).2
  exact ⟨d, List.mem_flatMap.2 ⟨lane, hlane, blockPartsAll_subset keeps lane.2 hd⟩, rfl⟩

/-! ## Positions of meetings -/

section Position

variable {roster : Roster} {block b : BlockId} {k j : Nat} {m : Meeting}

/-- A block that has a meeting has a position. -/
theorem Has.position? (h : roster.Has block) : ∃ k, roster.position? block = some k := by
  obtain ⟨m, hm, hb⟩ := h
  cases hpos : roster.position? block with
  | some k => exact ⟨k, rfl⟩
  | none =>
    have hno := List.findIdx?_eq_none_iff.1 hpos m hm
    simp [hb] at hno

theorem getElem?_of_position? (h : roster.position? block = some k) :
    ∃ m, roster[k]? = some m ∧ m.block = block := by
  obtain ⟨hlt, hb, -⟩ := List.findIdx?_eq_some_iff_getElem.1 h
  exact ⟨roster[k], List.getElem?_eq_getElem hlt, of_decide_eq_true hb⟩

theorem lt_of_position? (h : roster.position? block = some k) : k < roster.length :=
  (List.findIdx?_eq_some_iff_getElem.1 h).1

/-- Blocks in order have their meetings in order. -/
theorem Ascending.position?_lt (h : roster.Ascending) (hk : roster.position? block = some k)
    (hj : roster.position? b = some j) (hlt : block.index < b.index) : k < j := by
  obtain ⟨m, hm, rfl⟩ := getElem?_of_position? hk
  obtain ⟨m', hm', rfl⟩ := getElem?_of_position? hj
  obtain ⟨hk', rfl⟩ := List.getElem?_eq_some_iff.1 hm
  obtain ⟨hj', rfl⟩ := List.getElem?_eq_some_iff.1 hm'
  by_contra hnot
  rcases Nat.lt_or_eq_of_le (Nat.le_of_not_lt hnot) with hless | rfl
  · have hback := List.pairwise_iff_getElem.1 h j k hj' hk' hless
    exact UInt32.lt_irrefl _ (UInt32.lt_trans hlt hback)
  · exact UInt32.lt_irrefl _ hlt

/-- Each block has one meeting. -/
theorem Ascending.position?_eq (h : roster.Ascending) (hm : roster[k]? = some m) :
    roster.position? m.block = some k := by
  obtain ⟨hk, rfl⟩ := List.getElem?_eq_some_iff.1 hm
  refine List.findIdx?_eq_some_iff_getElem.2 ⟨hk, decide_eq_true rfl, ?_⟩
  intro j hj hsame
  have hlt := List.pairwise_iff_getElem.1 h j k (Nat.lt_trans hj hk) hk hj
  rw [of_decide_eq_true hsame] at hlt
  exact UInt32.lt_irrefl _ hlt

end Position

end Roster

end Lockstep
