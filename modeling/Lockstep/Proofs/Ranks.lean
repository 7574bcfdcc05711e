import Lockstep.Proofs.AlignedTiming
import Lockstep.Proofs.Points

/-!
# Barriers of one rank

Whoever arranges the barriers of some lanes takes the barriers of one rank for one meeting, and
refuses only lanes that have different numbers of barriers. Whether the barriers of one rank do
belong to one meeting is another question, and this module answers it for lanes with placed points.

A lane comes to its own blocks one by one, also to those that stand inside others (`stations`). A
block whose meeting is over by then is late: the lane has the points of that meeting once more
(`countP_emitAll`). So a lane has the number of barriers of an idle one exactly if its blocks are in
ascending order, nested or not. The numbers of its barriers are those of an idle lane only if in
addition no block stands in another one: the points of an inner block come before the second point
of the outer one (`flat_of_ascending_ids`).

The main statement, `placeBarriers_rendezvous`, puts this together for functions in which some lane
has its blocks in order. Two counterexamples follow it: a lane with a nested block beside an idle
lane, and two lanes that both come late to a block.
-/

set_option autoImplicit false

namespace Lockstep

/-! ## Numbers of barriers -/

/-- The number of a barrier. -/
def Instruction.barrierId? : Instruction → Option BarrierId
  | .barrier id _ => some id
  | _ => none

/-- The numbers of the barriers of a code, in order. -/
def barrierIds (code : List Instruction) : List BarrierId := code.filterMap Instruction.barrierId?

@[simp]
theorem barrierIds_append (a b : List Instruction) :
    barrierIds (a ++ b) = barrierIds a ++ barrierIds b :=
  List.filterMap_append

theorem barrierIds_eq_nil {code : List Instruction} (h : ∀ i ∈ code, i.isBarrier = false) :
    barrierIds code = [] := by
  apply List.filterMap_eq_nil_iff.2
  intro i hi
  have hfree := h i hi
  cases i with
  | barrier id members => cases hfree
  | _ => rfl

/-- At every rank all lanes have the same barrier. -/
def SameRendezvous (lanes : List Lane) : Prop :=
  ∀ rank : Nat, ∀ a ∈ lanes, ∀ b ∈ lanes, (barrierIds a.code)[rank]? = (barrierIds b.code)[rank]?

theorem sameRendezvous_iff {lanes : List Lane} :
    SameRendezvous lanes ↔ ∀ a ∈ lanes, ∀ b ∈ lanes, barrierIds a.code = barrierIds b.code := by
  constructor
  · intro h a ha b hb
    apply List.ext_getElem?
    intro rank
    exact h rank a ha b hb
  · intro h rank a ha b hb
    rw [h a ha b hb]

instance (lanes : List Lane) : Decidable (SameRendezvous lanes) :=
  decidable_of_iff _ sameRendezvous_iff.symm

/-! ## The way of a lane through the meetings -/

/-- The meetings that are over after those before `next` and the given ones. -/
def reach (next : Nat) (ks : List Nat) : Nat := ks.foldl (fun n k => max n (k + 1)) next

/-- Stations in a row reach as far as the second ones do after the first. -/
theorem reach_append (next : Nat) (ks js : List Nat) :
    reach next (ks ++ js) = reach (reach next ks) js :=
  List.foldl_append

theorem le_reach (next : Nat) (ks : List Nat) : next ≤ reach next ks := by
  induction ks generalizing next with
  | nil => exact Nat.le_refl next
  | cons k ks ih => exact Nat.le_trans (Nat.le_max_left _ _) (ih _)

/-- Stations before a meeting reach no further than it. -/
theorem reach_le {next last : Nat} {ks : List Nat} (hnext : next ≤ last)
    (hks : ∀ k ∈ ks, k < last) : reach next ks ≤ last := by
  induction ks generalizing next with
  | nil => exact hnext
  | cons k ks ih =>
    rw [List.forall_mem_cons] at hks
    exact ih (Nat.max_le.2 ⟨hnext, hks.1⟩) hks.2

/-- The positions of two blocks among the meetings are in the order of the blocks. -/
theorem Roster.Ascending.position?_lt_iff {roster : Roster} (h : roster.Ascending)
    {block b : BlockId} {k j : Nat} (hk : roster.position? block = some k)
    (hj : roster.position? b = some j) : k < j ↔ block.index < b.index := by
  constructor
  · intro hlt
    by_contra hnot
    by_cases hsame : block = b
    · subst hsame
      cases hk.symm.trans hj
      exact Nat.lt_irrefl _ hlt
    · have hback := h.position?_lt hj hk (index_lt_of_not_lt BlockId.index_injective hnot hsame)
      omega
  · exact h.position?_lt hk hj

namespace Placement

variable {p : Placement}

/-- The meetings of some blocks, in the order of the blocks. -/
def stations (p : Placement) (parts : List BlockPart) : List Nat :=
  parts.filterMap fun part => p.roster.position? part.block

@[simp]
theorem stations_append (p : Placement) (first others : List BlockPart) :
    p.stations (first ++ others) = p.stations first ++ p.stations others :=
  List.filterMap_append

theorem stations_cons {part : BlockPart} {k : Nat} (hk : p.roster.position? part.block = some k)
    (parts : List BlockPart) : p.stations (part :: parts) = k :: p.stations parts :=
  List.filterMap_cons_some hk

/-- Stations are among the meetings. -/
theorem lt_of_mem_stations {parts : List BlockPart} {k : Nat} (hk : k ∈ p.stations parts) :
    k < p.roster.length := by
  obtain ⟨part, -, hpos⟩ := List.mem_filterMap.1 hk
  exact Roster.lt_of_position? hpos

/-- Blocks are in ascending order exactly if the lane comes to their meetings in order. -/
theorem stations_ascending_iff (hroster : p.roster.Ascending) {parts : List BlockPart}
    (hhas : ∀ part ∈ parts, p.roster.Has part.block) :
    (p.stations parts).Pairwise (· < ·) ↔ parts.Pairwise (·.block.index < ·.block.index) := by
  unfold stations
  rw [List.pairwise_filterMap]
  apply List.Pairwise.iff_of_mem
  intro first other hfirst hother
  obtain ⟨k, hk⟩ := (hhas first hfirst).position?
  obtain ⟨j, hj⟩ := (hhas other hother).position?
  rw [← hroster.position?_lt_iff hk hj]
  simp [hk, hj]

/-- The barriers that a lane has once more: those of meetings that are over when it comes to
them. -/
def surplus (p : Placement) (next : Nat) : List Nat → Nat
  | [] => 0
  | k :: ks =>
    (if k < next then (p.idle k (k + 1)).countP Instruction.isBarrier else 0) +
      surplus p (max next (k + 1)) ks

/-- The surplus of stations in a row adds up. -/
theorem surplus_append (p : Placement) (next : Nat) (ks js : List Nat) :
    p.surplus next (ks ++ js) = p.surplus next ks + p.surplus (reach next ks) js := by
  induction ks generalizing next with
  | nil => exact (Nat.zero_add _).symm
  | cons k ks ih =>
    rw [List.cons_append, surplus, surplus, ih, Nat.add_assoc]
    rfl

/-- Every meeting has a barrier. -/
theorem countP_meeting_pos (p : Placement) (k : Nat) :
    0 < (p.idle k (k + 1)).countP Instruction.isBarrier := by
  rw [idle_succ]
  apply List.countP_pos_iff.2
  exact ⟨p.endPoint k, by simp, rfl⟩

/-- Nothing is there once more exactly if the lane comes to its meetings in order. -/
theorem surplus_eq_zero_iff {next : Nat} {ks : List Nat} :
    p.surplus next ks = 0 ↔ (∀ k ∈ ks, next ≤ k) ∧ ks.Pairwise (· < ·) := by
  induction ks generalizing next with
  | nil => simp [surplus]
  | cons k ks ih =>
    rw [surplus, Nat.add_eq_zero_iff, ih, List.forall_mem_cons, List.pairwise_cons]
    have hpos := p.countP_meeting_pos k
    constructor
    · rintro ⟨hfirst, hlater, hrest⟩
      have hle : next ≤ k := by
        by_contra hlate
        rw [if_pos (Nat.lt_of_not_le hlate)] at hfirst
        omega
      refine ⟨⟨hle, ?_⟩, ?_, hrest⟩
      · intro j hj
        exact Nat.le_trans (Nat.le_max_left _ _) (hlater j hj)
      · intro j hj
        exact Nat.lt_of_succ_le (Nat.le_trans (Nat.le_max_right _ _) (hlater j hj))
    · rintro ⟨⟨hle, -⟩, hlater, hrest⟩
      refine ⟨if_neg (Nat.not_lt.2 hle), ?_, hrest⟩
      intro j hj
      exact Nat.max_le.2 ⟨Nat.le_trans hle (Nat.le_of_lt (hlater j hj)), hlater j hj⟩

/-! ## How many barriers a lane has -/

/-- What a code has when the meetings from `next` on are passed by way of the given ones: the
barriers of each of them, and once more those of the late ones. -/
def Counted (p : Placement) (next : Nat) (ks : List Nat) (placed : List Instruction × Nat) : Prop :=
  placed.2 = reach next ks ∧
    placed.1.countP Instruction.isBarrier =
      (p.idle next (reach next ks)).countP Instruction.isBarrier + p.surplus next ks

theorem countP_idle_append {a b c : Nat} (hab : a ≤ b) (hbc : b ≤ c) :
    (p.idle a c).countP Instruction.isBarrier =
      (p.idle a b).countP Instruction.isBarrier + (p.idle b c).countP Instruction.isBarrier := by
  rw [← idle_append hab hbc, List.countP_append]

/-- Counts of code in a row add up. -/
theorem Counted.append {next : Nat} {ks js : List Nat} {first others : List Instruction × Nat}
    (h : p.Counted next ks first) (h' : p.Counted first.2 js others) :
    p.Counted next (ks ++ js) (first.1 ++ others.1, others.2) := by
  obtain ⟨hnext, hcount⟩ := h
  obtain ⟨hnext', hcount'⟩ := h'
  rw [hnext] at hnext' hcount'
  constructor
  · rw [reach_append, hnext']
  · rw [List.countP_append, hcount, hcount', surplus_append, reach_append,
      countP_idle_append (le_reach next ks) (le_reach (reach next ks) js)]
    omega

/-- The code of a block as a row of its parts. -/
theorem block_parts (p : Placement) (next k : Nat) (inner : List Instruction) :
    p.idle next k ++ p.startPoint k :: inner ++ [p.endPoint k] =
      p.idle next k ++ ([p.startPoint k] ++ (inner ++ [p.endPoint k])) := by
  simp

/-- A block with its two points. If it is late, the lane does not idle before it. -/
theorem Counted.block {next k : Nat} {ks : List Nat} {inner : List Instruction × Nat}
    (h : p.Counted (max next (k + 1)) ks inner) :
    p.Counted next (k :: ks) (p.idle next k ++ p.startPoint k :: inner.1 ++ [p.endPoint k], inner.2)
    := by
  obtain ⟨hnext, hcount⟩ := h
  have hreach : reach next (k :: ks) = reach (max next (k + 1)) ks := rfl
  have hle := le_reach (max next (k + 1)) ks
  have hmeeting : (p.idle k (k + 1)).countP Instruction.isBarrier =
      [p.startPoint k].countP Instruction.isBarrier +
        [p.endPoint k].countP Instruction.isBarrier := by
    rw [idle_succ, ← List.countP_append]
    rfl
  refine ⟨by rw [hreach, hnext], ?_⟩
  rw [hreach, surplus, block_parts, List.countP_append, List.countP_append, List.countP_append,
    hcount]
  rcases Nat.lt_or_ge k next with hlate | hle'
  · have hidle : p.idle next k = [] := by
      rw [idle, Nat.sub_eq_zero_of_le (Nat.le_of_lt hlate)]
      rfl
    rw [hidle, if_pos hlate, Nat.max_eq_left hlate, hmeeting, List.countP_nil]
    omega
  · have hnext' : next ≤ k + 1 := by omega
    rw [Nat.max_eq_right hnext'] at hle ⊢
    rw [if_neg (Nat.not_lt.2 hle'), countP_idle_append hnext' hle,
      countP_idle_append hle' (Nat.le_succ k), hmeeting]
    omega

mutual

/-- The barriers of a segment are counted by its stations. -/
theorem countP_emit (p : Placement) : ∀ (s : Segment) (next : Nat),
    (∀ part ∈ s.blockParts (· = p.lane), p.roster.Has part.block) →
    (∀ i ∈ s.inline p.lane, i.isBarrier = false) →
      p.Counted next (p.stations (s.blockParts (· = p.lane))) (p.emit next s)
  | .op i, next, _, hops => by
    rw [Segment.inline] at hops
    rw [Segment.blockParts, emit]
    refine ⟨rfl, ?_⟩
    show [i].countP Instruction.isBarrier = (p.idle next next).countP Instruction.isBarrier + 0
    rw [idle_self, List.countP_singleton, hops i List.mem_cons_self]
    rfl
  | .concurrent block lanes body, next, hhas, hops => by
    rw [Segment.blockParts, List.forall_mem_cons] at hhas
    rw [inline_concurrent] at hops
    obtain ⟨k, hk⟩ := hhas.1.position?
    rw [Segment.blockParts, stations_cons hk, emit, hk]
    exact (countP_emitAll p body (max next (k + 1)) hhas.2 hops).block
  | .group owner body, next, hhas, hops => by
    rw [Segment.blockParts] at hhas ⊢
    rw [Segment.inline] at hops
    rw [emit]
    by_cases howner : owner = p.lane
    · rw [if_pos (decide_eq_true howner)] at hhas ⊢
      rw [if_pos howner] at hops ⊢
      exact countP_emitAll p body next hhas hops
    · rw [if_neg howner, if_neg (by simp [howner])]
      exact ⟨rfl, by simp [stations, reach, idle_self, surplus]⟩

/-- A lane has the barriers of the meetings that it passes, and once more those of its late
blocks. -/
theorem countP_emitAll (p : Placement) : ∀ (segments : List Segment) (next : Nat),
    (∀ part ∈ blockPartsAll (· = p.lane) segments, p.roster.Has part.block) →
    (∀ i ∈ inlineAll p.lane segments, i.isBarrier = false) →
      p.Counted next (p.stations (blockPartsAll (· = p.lane) segments)) (p.emitAll next segments)
  | [], next, _, _ => by
    rw [blockPartsAll, emitAll]
    exact ⟨rfl, by simp [stations, reach, idle_self, surplus]⟩
  | s :: rest, next, hhas, hops => by
    rw [blockPartsAll_cons, List.forall_mem_append] at hhas
    rw [inlineAll_cons, List.forall_mem_append] at hops
    rw [blockPartsAll_cons, stations_append, emitAll]
    exact (countP_emit p s next hhas.1 hops.1).append (countP_emitAll p rest _ hhas.2 hops.2)

end

/-! ## Blocks in order, one after the other -/

mutual

/-- A segment without nested blocks and without surplus has the barriers of the meetings that it
passes. -/
theorem barrierIds_emit (p : Placement) : ∀ (s : Segment) (next : Nat),
    (∀ part ∈ s.blockParts (· = p.lane), p.roster.Has part.block) →
    (∀ i ∈ s.inline p.lane, i.isBarrier = false) →
    (∀ part ∈ s.blockParts (· = p.lane), blockPartsAll (· = p.lane) part.body = []) →
    p.surplus next (p.stations (s.blockParts (· = p.lane))) = 0 →
      barrierIds (p.emit next s).1 =
        barrierIds (p.idle next (reach next (p.stations (s.blockParts (· = p.lane)))))
  | .op i, next, _, hops, _, _ => by
    rw [Segment.inline] at hops
    rw [Segment.blockParts, emit, barrierIds_eq_nil hops]
    show [] = barrierIds (p.idle next next)
    rw [idle_self]
    rfl
  | .concurrent block lanes body, next, hhas, hops, hflat, hsurplus => by
    rw [Segment.blockParts, List.forall_mem_cons] at hhas hflat
    rw [inline_concurrent] at hops
    obtain ⟨k, hk⟩ := hhas.1.position?
    rw [Segment.blockParts, hflat.1, stations_cons hk] at hsurplus ⊢
    have hle : next ≤ k := (surplus_eq_zero_iff.1 hsurplus).1 k List.mem_cons_self
    have hreach : reach next (k :: p.stations []) = k + 1 :=
      Nat.max_eq_right (Nat.le_succ_of_le hle)
    rw [hreach, emit, hk, ← idle_append hle (Nat.le_succ k), idle_succ]
    simp only [emitAll_of_blockParts_nil p body _ hflat.1]
    rw [block_parts, barrierIds_append, barrierIds_append, barrierIds_append,
      barrierIds_eq_nil hops, List.nil_append, ← barrierIds_append, ← barrierIds_append]
    rfl
  | .group owner body, next, hhas, hops, hflat, hsurplus => by
    rw [Segment.blockParts] at hhas hflat hsurplus ⊢
    rw [Segment.inline] at hops
    rw [emit]
    by_cases howner : owner = p.lane
    · rw [if_pos (decide_eq_true howner)] at hhas hflat hsurplus ⊢
      rw [if_pos howner] at hops ⊢
      exact barrierIds_emitAll p body next hhas hops hflat hsurplus
    · rw [if_neg howner, if_neg (by simp [howner])]
      show [] = barrierIds (p.idle next next)
      rw [idle_self]
      rfl

/-- A lane whose blocks are in order, one after the other, has the barriers of an idle one. -/
theorem barrierIds_emitAll (p : Placement) : ∀ (segments : List Segment) (next : Nat),
    (∀ part ∈ blockPartsAll (· = p.lane) segments, p.roster.Has part.block) →
    (∀ i ∈ inlineAll p.lane segments, i.isBarrier = false) →
    (∀ part ∈ blockPartsAll (· = p.lane) segments, blockPartsAll (· = p.lane) part.body = []) →
    p.surplus next (p.stations (blockPartsAll (· = p.lane) segments)) = 0 →
      barrierIds (p.emitAll next segments).1 =
        barrierIds (p.idle next (reach next (p.stations (blockPartsAll (· = p.lane) segments))))
  | [], next, _, _, _, _ => by
    rw [blockPartsAll, emitAll]
    show [] = barrierIds (p.idle next next)
    rw [idle_self]
    rfl
  | s :: rest, next, hhas, hops, hflat, hsurplus => by
    rw [blockPartsAll_cons, List.forall_mem_append] at hhas hflat
    rw [inlineAll_cons, List.forall_mem_append] at hops
    rw [blockPartsAll_cons, stations_append, surplus_append, Nat.add_eq_zero_iff] at hsurplus
    obtain ⟨hnext, -⟩ := p.countP_emit s next hhas.1 hops.1
    have hfirst := barrierIds_emit p s next hhas.1 hops.1 hflat.1 hsurplus.1
    rw [← hnext] at hsurplus
    have hrest := barrierIds_emitAll p rest _ hhas.2 hops.2 hflat.2 hsurplus.2
    rw [hnext] at hrest
    rw [blockPartsAll_cons, stations_append, reach_append,
      ← idle_append (le_reach next _) (le_reach _ _), barrierIds_append, ← hfirst, ← hrest, ← hnext,
      emitAll, barrierIds_append]

end

/-! ## Nested blocks -/

mutual

/-- Every meeting that a segment has a part in ends in it. -/
theorem endPoint_mem_emit (p : Placement) : ∀ (s : Segment) (next : Nat),
    (∀ part ∈ s.blockParts (· = p.lane), p.roster.Has part.block) →
      ∀ k ∈ p.stations (s.blockParts (· = p.lane)), p.endPoint k ∈ (p.emit next s).1
  | .op i, next, _, k, hk => by
    rw [Segment.blockParts] at hk
    cases hk
  | .concurrent block lanes body, next, hhas, k, hk => by
    rw [Segment.blockParts, List.forall_mem_cons] at hhas
    obtain ⟨j, hj⟩ := hhas.1.position?
    rw [Segment.blockParts, stations_cons hj] at hk
    rw [emit, hj]
    rcases List.mem_cons.1 hk with rfl | hk
    · exact List.mem_append_right _ List.mem_cons_self
    · have hinner := endPoint_mem_emitAll p body (max next (j + 1)) hhas.2 k hk
      simp [hinner]
  | .group owner body, next, hhas, k, hk => by
    rw [Segment.blockParts] at hhas hk
    rw [emit]
    by_cases howner : owner = p.lane
    · rw [if_pos (decide_eq_true howner)] at hhas hk
      rw [if_pos howner]
      exact endPoint_mem_emitAll p body next hhas k hk
    · rw [if_neg (by simp [howner])] at hk
      cases hk

/-- Every own block of a lane has its second point. -/
theorem endPoint_mem_emitAll (p : Placement) : ∀ (segments : List Segment) (next : Nat),
    (∀ part ∈ blockPartsAll (· = p.lane) segments, p.roster.Has part.block) →
      ∀ k ∈ p.stations (blockPartsAll (· = p.lane) segments),
        p.endPoint k ∈ (p.emitAll next segments).1
  | [], next, _, k, hk => by
    rw [blockPartsAll] at hk
    cases hk
  | s :: rest, next, hhas, k, hk => by
    rw [blockPartsAll_cons, List.forall_mem_append] at hhas
    rw [blockPartsAll_cons, stations_append] at hk
    rw [emitAll]
    rcases List.mem_append.1 hk with hk | hk
    · exact List.mem_append_left _ (endPoint_mem_emit p s next hhas.1 k hk)
    · exact List.mem_append_right _ (endPoint_mem_emitAll p rest _ hhas.2 k hk)

end

/-- The number of a point fits into a word. -/
theorem toNat_ofNat_point {p : Placement} (hfit : p.roster.length < 2 ^ 31) {k n : Nat}
    (hk : k < p.roster.length) (hn : n ≤ 2 * k + 1) : (UInt32.ofNat n).toNat = n := by
  have hlt : n < 2 ^ 32 := by omega
  exact UInt32.toNat_ofNat_of_lt' hlt

/-- No block can stand between the two points of another one if numbers ascend: its second point
would be before the second point of the outer block, and after the first. -/
theorem no_stations_inside (hfit : p.roster.length < 2 ^ 31) {k : Nat} {inner : List Instruction}
    (hk : k < p.roster.length)
    (hids : (barrierIds ([p.startPoint k] ++ (inner ++ [p.endPoint k]))).Pairwise
      (·.index < ·.index)) {j : Nat} (hj : j < p.roster.length) : p.endPoint j ∉ inner := by
  intro hmem
  have hid : (⟨UInt32.ofNat (2 * j + 1)⟩ : BarrierId) ∈ barrierIds inner :=
    List.mem_filterMap.2 ⟨_, hmem, rfl⟩
  rw [barrierIds_append, barrierIds_append, List.pairwise_append, List.pairwise_append] at hids
  obtain ⟨-, ⟨-, -, hend⟩, hstart⟩ := hids
  have hbefore := hend _ hid ⟨UInt32.ofNat (2 * k + 1)⟩
    (List.mem_filterMap.2 ⟨_, List.mem_cons_self, rfl⟩)
  rw [UInt32.lt_iff_toNat_lt, toNat_ofNat_point hfit hj (Nat.le_refl _),
    toNat_ofNat_point hfit hk (Nat.le_refl _)] at hbefore
  -- The inner meeting is an earlier one, so the outer one is not the first and starts at a barrier.
  have hbarrier : p.startPoint k = p.barrier k (2 * k) := by
    rw [startPoint, if_neg]
    rintro ⟨-, hzero⟩
    omega
  have hafter := hstart ⟨UInt32.ofNat (2 * k)⟩
    (List.mem_filterMap.2 ⟨_, List.mem_cons_self, by rw [hbarrier]; rfl⟩) _
    (List.mem_append_left _ hid)
  rw [UInt32.lt_iff_toNat_lt, toNat_ofNat_point hfit hj (Nat.le_refl _),
    toNat_ofNat_point hfit hk (Nat.le_succ _)] at hafter
  omega

mutual

/-- If the barriers of a segment ascend, no block of it stands in another one. -/
theorem flat_of_ascending_emit (p : Placement) (hfit : p.roster.length < 2 ^ 31) :
    ∀ (s : Segment) (next : Nat),
    (∀ part ∈ s.blockParts (· = p.lane), p.roster.Has part.block) →
    (barrierIds (p.emit next s).1).Pairwise (·.index < ·.index) →
      ∀ part ∈ s.blockParts (· = p.lane), blockPartsAll (· = p.lane) part.body = []
  | .op i, next, _, _, part, hpart => by
    rw [Segment.blockParts] at hpart
    cases hpart
  | .concurrent block lanes body, next, hhas, hids, part, hpart => by
    rw [Segment.blockParts, List.forall_mem_cons] at hhas
    rw [Segment.blockParts] at hpart
    obtain ⟨k, hk⟩ := hhas.1.position?
    rw [emit, hk] at hids
    simp only [block_parts] at hids
    rw [barrierIds_append, List.pairwise_append] at hids
    have hnone : blockPartsAll (· = p.lane) body = [] := by
      rw [List.eq_nil_iff_forall_not_mem]
      intro other hother
      obtain ⟨j, hj⟩ := (hhas.2 other hother).position?
      apply no_stations_inside hfit (Roster.lt_of_position? hk) hids.2.1
        (Roster.lt_of_position? hj)
      exact endPoint_mem_emitAll p body _ hhas.2 j (List.mem_filterMap.2 ⟨other, hother, hj⟩)
    rw [hnone, List.mem_singleton] at hpart
    rw [hpart]
    exact hnone
  | .group owner body, next, hhas, hids, part, hpart => by
    rw [Segment.blockParts] at hhas hpart
    rw [emit] at hids
    by_cases howner : owner = p.lane
    · rw [if_pos (decide_eq_true howner)] at hhas hpart
      rw [if_pos howner] at hids
      exact flat_of_ascending_emitAll p hfit body next hhas hids part hpart
    · rw [if_neg (by simp [howner])] at hpart
      cases hpart

/-- A lane whose barriers have ascending numbers has no block in another one. -/
theorem flat_of_ascending_emitAll (p : Placement) (hfit : p.roster.length < 2 ^ 31) :
    ∀ (segments : List Segment) (next : Nat),
    (∀ part ∈ blockPartsAll (· = p.lane) segments, p.roster.Has part.block) →
    (barrierIds (p.emitAll next segments).1).Pairwise (·.index < ·.index) →
      ∀ part ∈ blockPartsAll (· = p.lane) segments, blockPartsAll (· = p.lane) part.body = []
  | [], next, _, _, part, hpart => by
    rw [blockPartsAll] at hpart
    cases hpart
  | s :: rest, next, hhas, hids, part, hpart => by
    rw [blockPartsAll_cons, List.forall_mem_append] at hhas
    rw [emitAll, barrierIds_append, List.pairwise_append] at hids
    rw [blockPartsAll_cons] at hpart
    rcases List.mem_append.1 hpart with hpart | hpart
    · exact flat_of_ascending_emit p hfit s next hhas.1 hids.1 part hpart
    · exact flat_of_ascending_emitAll p hfit rest _ hhas.2 hids.2.1 part hpart

end

/-! ## Whole lanes -/

/-- A lane has the barriers of an idle one and its surplus. -/
theorem countP_code_eq {segments : List Segment}
    (hhas : ∀ part ∈ blockPartsAll (· = p.lane) segments, p.roster.Has part.block)
    (hops : ∀ i ∈ inlineAll p.lane segments, i.isBarrier = false) :
    (p.code segments).countP Instruction.isBarrier =
      (p.idle 0 p.roster.length).countP Instruction.isBarrier +
        p.surplus 0 (p.stations (blockPartsAll (· = p.lane) segments)) := by
  obtain ⟨hnext, hcount⟩ := p.countP_emitAll segments 0 hhas hops
  have hlast : reach 0 (p.stations (blockPartsAll (· = p.lane) segments)) ≤ p.roster.length :=
    reach_le (Nat.zero_le _) fun k hk => lt_of_mem_stations hk
  rw [code, List.countP_append, hcount, hnext, countP_idle_append (Nat.zero_le _) hlast]
  omega

/-- A lane without nested blocks and without surplus has the barriers of an idle one. -/
theorem barrierIds_code {segments : List Segment}
    (hhas : ∀ part ∈ blockPartsAll (· = p.lane) segments, p.roster.Has part.block)
    (hops : ∀ i ∈ inlineAll p.lane segments, i.isBarrier = false)
    (hflat : ∀ part ∈ blockPartsAll (· = p.lane) segments,
      blockPartsAll (· = p.lane) part.body = [])
    (hsurplus : p.surplus 0 (p.stations (blockPartsAll (· = p.lane) segments)) = 0) :
    barrierIds (p.code segments) = barrierIds (p.idle 0 p.roster.length) := by
  obtain ⟨hnext, -⟩ := p.countP_emitAll segments 0 hhas hops
  have hlast : reach 0 (p.stations (blockPartsAll (· = p.lane) segments)) ≤ p.roster.length :=
    reach_le (Nat.zero_le _) fun k hk => lt_of_mem_stations hk
  rw [code, barrierIds_append, barrierIds_emitAll p segments 0 hhas hops hflat hsurplus, hnext,
    ← barrierIds_append, idle_append (Nat.zero_le _) hlast]

/-- The barriers of an idle lane are numbered upwards from zero, or from one if the lane starts with
the trigger. -/
theorem barrierIds_idle_sublist (hfit : p.roster.length < 2 ^ 31) {n : Nat}
    (hn : n ≤ p.roster.length) :
    ((barrierIds (p.idle 0 n)).map (·.index.toNat)).Sublist (List.range (2 * n)) := by
  induction n with
  | zero => exact List.Sublist.refl []
  | succ n ih =>
    have hlt : n < p.roster.length := hn
    have hstop : (UInt32.ofNat (2 * n + 1)).toNat = 2 * n + 1 :=
      toNat_ofNat_point hfit hlt (Nat.le_refl _)
    have hrange : List.range (2 * (n + 1)) = List.range (2 * n) ++ [2 * n, 2 * n + 1] := by
      rw [Nat.mul_succ, List.range_succ, List.range_succ, List.append_assoc]
      rfl
    rw [← idle_append (Nat.zero_le n) (Nat.le_succ n), idle_succ, hrange, barrierIds_append,
      List.map_append]
    refine (ih (Nat.le_of_lt hlt)).append ?_
    show ((barrierIds ([p.startPoint n] ++ [p.endPoint n])).map _).Sublist ([2 * n] ++ [2 * n + 1])
    rw [barrierIds_append, List.map_append]
    apply List.Sublist.append
    · unfold startPoint
      split
      · exact List.nil_sublist _
      · show [(UInt32.ofNat (2 * n)).toNat].Sublist _
        rw [toNat_ofNat_point hfit hlt (Nat.le_succ _)]
    · show [(UInt32.ofNat (2 * n + 1)).toNat].Sublist _
      rw [hstop]

/-- The numbers of the barriers of an idle lane ascend. -/
theorem barrierIds_idle_ascending (hfit : p.roster.length < 2 ^ 31) :
    (barrierIds (p.idle 0 p.roster.length)).Pairwise (·.index < ·.index) := by
  have hnumbers := List.pairwise_lt_range.sublist (barrierIds_idle_sublist hfit (Nat.le_refl _))
  refine (List.pairwise_map.1 hnumbers).imp ?_
  intro a b hlt
  exact UInt32.lt_iff_toNat_lt.2 hlt

end Placement

/-! ## Lanes that are accepted -/

/-- No block of a lane stands in another one. -/
def Unnested (lane : LaneId) (segments : List Segment) : Prop :=
  ∀ part ∈ blockPartsAll (· = lane) segments, blockPartsAll (· = lane) part.body = []

/-- A lane comes to its blocks in ascending order; inner blocks come after the outer one. -/
def Ascends (lane : LaneId) (segments : List Segment) : Prop :=
  (blockPartsAll (· = lane) segments).Pairwise (·.block.index < ·.block.index)

section Placed

variable (initialWait : Bool) (lanes : List (LaneId × List Segment))

/-- How the points of a lane are placed among the meetings of a function. -/
def placementIn (lane : LaneId) : Placement := ⟨lane, Roster.ofLanes lanes, initialWait⟩

/-- The points of a lane that takes part in no block of a function. -/
def idleCode : List Instruction :=
  (placementIn initialWait lanes ⟨0⟩).idle 0 (Roster.ofLanes lanes).length

variable {initialWait lanes} {lane : LaneId × List Segment}

theorem exists_of_mem_placeBarriers {placed : Lane} (h : placed ∈ placeBarriers initialWait lanes) :
    ∃ lane ∈ lanes, placed.code = (placementIn initialWait lanes lane.1).code lane.2 := by
  obtain ⟨lane, hlane, rfl⟩ := List.mem_map.1 h
  exact ⟨lane, hlane, rfl⟩

theorem exists_placed_of_mem (initialWait : Bool) (hlane : lane ∈ lanes) :
    ∃ placed ∈ placeBarriers initialWait lanes,
      placed.code = (placementIn initialWait lanes lane.1).code lane.2 :=
  ⟨_, List.mem_map.2 ⟨lane, hlane, rfl⟩, rfl⟩

/-- A placed lane has as many barriers as an idle one exactly if its blocks ascend. -/
theorem countP_placed_eq_iff (hlane : lane ∈ lanes)
    (hops : ∀ i ∈ inlineAll lane.1 lane.2, i.isBarrier = false) :
    ((placementIn initialWait lanes lane.1).code lane.2).countP Instruction.isBarrier =
      (idleCode initialWait lanes).countP Instruction.isBarrier ↔ Ascends lane.1 lane.2 := by
  have hhas := Roster.ofLanes_has hlane fun owner => owner = lane.1
  have hcount := Placement.countP_code_eq (p := placementIn initialWait lanes lane.1) hhas hops
  have hstations := Placement.stations_ascending_iff (p := placementIn initialWait lanes lane.1)
    (Roster.gathers_ofLanes lanes).ascending hhas
  rw [hcount]
  constructor
  · intro hsame
    have hzero := Nat.add_eq_left.1 hsame
    exact hstations.1 (Placement.surplus_eq_zero_iff.1 hzero).2
  · intro hascends
    apply Nat.add_eq_left.2
    exact Placement.surplus_eq_zero_iff.2 ⟨fun k _ => Nat.zero_le k, hstations.2 hascends⟩

/-- A placed lane whose blocks ascend, none in another one, has the barriers of an idle one. -/
theorem barrierIds_placed (hlane : lane ∈ lanes)
    (hops : ∀ i ∈ inlineAll lane.1 lane.2, i.isBarrier = false)
    (hflat : Unnested lane.1 lane.2) (hascends : Ascends lane.1 lane.2) :
    barrierIds ((placementIn initialWait lanes lane.1).code lane.2) =
      barrierIds (idleCode initialWait lanes) := by
  have hhas := Roster.ofLanes_has hlane fun owner => owner = lane.1
  have hstations := Placement.stations_ascending_iff (p := placementIn initialWait lanes lane.1)
    (Roster.gathers_ofLanes lanes).ascending hhas
  refine Placement.barrierIds_code (p := placementIn initialWait lanes lane.1) hhas hops hflat ?_
  exact Placement.surplus_eq_zero_iff.2 ⟨fun k _ => Nat.zero_le k, hstations.2 hascends⟩

/-- A placed lane with the barriers of an idle one has no block in another one. -/
theorem unnested_of_barrierIds (hlane : lane ∈ lanes)
    (hfit : (Roster.ofLanes lanes).length < 2 ^ 31)
    (hids : barrierIds ((placementIn initialWait lanes lane.1).code lane.2) =
      barrierIds (idleCode initialWait lanes)) : Unnested lane.1 lane.2 := by
  have hhas := Roster.ofLanes_has hlane fun owner => owner = lane.1
  have hidle := Placement.barrierIds_idle_ascending (p := placementIn initialWait lanes ⟨0⟩) hfit
  have hnumbers : barrierIds ((placementIn initialWait lanes ⟨0⟩).idle 0
      (placementIn initialWait lanes ⟨0⟩).roster.length) =
      barrierIds ((placementIn initialWait lanes lane.1).code lane.2) := hids.symm
  rw [hnumbers, Placement.code, barrierIds_append, List.pairwise_append] at hidle
  exact Placement.flat_of_ascending_emitAll _ hfit lane.2 0 hhas hidle.1

end Placed

/-- Let some lane of a function have its blocks in order, one after the other. Then the lanes have
the same number of barriers exactly if each of them comes to its blocks in ascending order. If they
do, no two meetings are taken for one as long as no lane has a block in another one, and only
then. -/
theorem placeBarriers_rendezvous (initialWait : Bool) (lanes : List (LaneId × List Segment))
    (hops : ∀ lane ∈ lanes, ∀ i ∈ inlineAll lane.1 lane.2, i.isBarrier = false)
    (hkept : ∃ lane ∈ lanes, Orderly lane.1 lane.2) :
    ((∃ ranks, Alignment.commonCount? (placeBarriers initialWait lanes) = some ranks) ↔
        ∀ lane ∈ lanes, Ascends lane.1 lane.2) ∧
      ((∃ ranks, Alignment.commonCount? (placeBarriers initialWait lanes) = some ranks) →
        (∀ lane ∈ lanes, Unnested lane.1 lane.2) →
          SameRendezvous (placeBarriers initialWait lanes)) ∧
      (((declarations lanes).map BlockPart.block).dedup.length < 2 ^ 31 →
        SameRendezvous (placeBarriers initialWait lanes) →
          ∀ lane ∈ lanes, Unnested lane.1 lane.2) := by
  obtain ⟨kept, hkept, horderly⟩ := hkept
  obtain ⟨keptPlaced, hkeptPlaced, hkeptCode⟩ := exists_placed_of_mem initialWait hkept
  have haccepted : (∃ ranks, Alignment.commonCount? (placeBarriers initialWait lanes) = some ranks)
      ↔ ∀ lane ∈ lanes, Ascends lane.1 lane.2 := by
    constructor
    · rintro ⟨ranks, hranks⟩ lane hlane
      obtain ⟨placed, hplaced, hcode⟩ := exists_placed_of_mem initialWait hlane
      have hall := Alignment.barrierCount_of_commonCount? hranks
      have hsame := (hall placed hplaced).trans (hall keptPlaced hkeptPlaced).symm
      rw [Lane.barrierCount, Lane.barrierCount, hcode, hkeptCode,
        (countP_placed_eq_iff hkept (hops kept hkept)).2 horderly.ascending] at hsame
      exact (countP_placed_eq_iff hlane (hops lane hlane)).1 hsame
    · intro hascends
      refine ⟨(idleCode initialWait lanes).countP Instruction.isBarrier,
        Alignment.commonCount?_eq_some ?_ ?_⟩
      · intro hnone
        rw [hnone] at hkeptPlaced
        cases hkeptPlaced
      · intro placed hplaced
        obtain ⟨lane, hlane, hcode⟩ := exists_of_mem_placeBarriers hplaced
        rw [Lane.barrierCount, hcode]
        exact (countP_placed_eq_iff hlane (hops lane hlane)).2 (hascends lane hlane)
  refine ⟨haccepted, ?_, ?_⟩
  · intro haccept hflat
    have hascends := haccepted.1 haccept
    apply sameRendezvous_iff.2
    intro a ha b hb
    obtain ⟨lane, hlane, hcode⟩ := exists_of_mem_placeBarriers ha
    obtain ⟨other, hother, hcode'⟩ := exists_of_mem_placeBarriers hb
    rw [hcode, hcode', barrierIds_placed hlane (hops lane hlane) (hflat lane hlane)
        (hascends lane hlane), barrierIds_placed hother (hops other hother) (hflat other hother)
        (hascends other hother)]
  · intro hfew hsame lane hlane
    obtain ⟨placed, hplaced, hcode⟩ := exists_placed_of_mem initialWait hlane
    have hids := sameRendezvous_iff.1 hsame placed hplaced keptPlaced hkeptPlaced
    rw [hcode, hkeptCode, barrierIds_placed hkept (hops kept hkept) horderly.flat
      horderly.ascending] at hids
    rw [← (Roster.gathers_ofLanes lanes).length_eq] at hfew
    exact unnested_of_barrierIds hlane hfew hids

theorem placeBarriers_rendezvous_sharedLanes :
    (∃ ranks, Alignment.commonCount? (placeBarriers true sharedLanes) = some ranks) ∧
      SameRendezvous (placeBarriers true sharedLanes) := by
  have hkept : ∃ lane ∈ sharedLanes, Orderly lane.1 lane.2 :=
    ⟨(⟨2⟩, []), by simp [sharedLanes], ⟨by decide, by decide⟩⟩
  obtain ⟨hcounts, hsame, -⟩ := placeBarriers_rendezvous true sharedLanes (by decide) hkept
  have haccepted := hcounts.2 (by unfold Ascends; decide)
  exact ⟨haccepted, hsame haccepted (by unfold Unnested; decide)⟩

/-- A lane with a block in another one, and a lane that takes part in neither. -/
def nestedLanes : List (LaneId × List Segment) :=
  [(⟨0⟩, [.concurrent ⟨0⟩ [⟨0⟩, ⟨1⟩] [.concurrent ⟨1⟩ [⟨0⟩, ⟨1⟩] []]]), (⟨1⟩, [])]

/-- Two meetings are taken for one where a block stands in another one: the second barrier of the
one lane is before the inner block, that of the other lane after the outer block. -/
theorem nested_block_merges_meetings :
    Alignment.commonCount? (placeBarriers false nestedLanes) = some 4 ∧
      ¬ SameRendezvous (placeBarriers false nestedLanes) := by
  decide

/-- Two lanes that come late, one to another block than the other. -/
def lateLanes : List (LaneId × List Segment) :=
  [(⟨0⟩, [.concurrent ⟨1⟩ [⟨0⟩] [], .concurrent ⟨0⟩ [⟨0⟩] []]),
    (⟨1⟩, [.concurrent ⟨1⟩ [⟨1⟩] [], .concurrent ⟨1⟩ [⟨1⟩] []])]

/-- Two meetings are also taken for one where no lane has its blocks in order. -/
theorem late_blocks_merge_meetings :
    Alignment.commonCount? (placeBarriers false lateLanes) = some 6 ∧
      ¬ SameRendezvous (placeBarriers false lateLanes) := by
  decide

end Lockstep
