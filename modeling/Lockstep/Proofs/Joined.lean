import Lockstep.Proofs.Confined

/-!
# Lanes that are joined

What a walk finds out about a block depends on the code of the block only, not on where it stands
nor on what is around it: two walks through the same code go on together and halt together
(`Walk.step_alike`), so that they come to the same timing or both fail (`Block.Is.toOption_timing`).
What stands in the place of a barrier is therefore a function of the code that each lane has before
it, and of nothing else (`Alignment.inPlace`). Lanes that are cut at their barriers of some rank can
be arranged part by part, whatever was decided about the ranks before (`alignLanes_joined`).
-/

set_option autoImplicit false

namespace Lockstep

/-! ## Walks through the same code -/

theorem Block.Is.stands_take {b : Block} {piece : List Instruction} (h : b.Is piece) (n : Nat) :
    Stands b.lane.code b.first (piece.take n) := by
  have hwhole := h.stands
  rw [← List.take_append_drop n piece] at hwhole
  exact hwhole.left

namespace Walk

section Alike

variable {b b' : Block} {piece : List Instruction} {v : Walk}

/-- A label found behind in one block is found behind in any other with the same code. -/
theorem haltsOnRuntime_home {i : Instruction} (hb : b.Is piece) (hb' : b'.Is piece)
    (hlt : v.cursor < piece.length) (h : HaltsOnRuntime b (home b v) i) :
    HaltsOnRuntime b' (home b' v) i := by
  rcases h with huncertain | ⟨l, rfl, hback⟩
  · exact .inl huncertain
  · refine .inr ⟨l, rfl, ?_⟩
    obtain ⟨x, hx⟩ := Option.isSome_iff_exists.1 hback
    have hstands := hb.stands_take (v.cursor + 1)
    have hstands' := hb'.stands_take (v.cursor + 1)
    have hlength : (piece.take (v.cursor + 1)).length = v.cursor + 1 := List.length_take_of_le hlt
    have hfound : firstLabel? b.lane.code (b.first + 0) (b.first + (v.cursor + 1)) l = some x := hx
    have hstop : b.first + (v.cursor + 1) = b.first + (piece.take (v.cursor + 1)).length := by
      rw [hlength]
    have hstop' : b'.first + (piece.take (v.cursor + 1)).length ≤ b'.first + (v.cursor + 1) :=
      Nat.le_of_eq (by rw [hlength])
    obtain ⟨j, -, -, -, hmoved⟩ := hstands.firstLabel?_moved hstands' hstop hstop' hfound
    exact Option.isSome_iff_exists.2 ⟨_, hmoved⟩

/-- Walks through the same code go on together, or halt with the same timing or each with an
error. -/
theorem step_alike (hb : b.Is piece) (hb' : b'.Is piece) (hv : v.Within piece.length) :
    (∃ v', v'.Within piece.length ∧ step b (home b v) = .next (home b v') ∧
        step b' (home b' v) = .next (home b' v')) ∨
      ∃ result result', step b (home b v) = .halt result ∧ step b' (home b' v) = .halt result' ∧
        result.toOption = result'.toOption := by
  rcases Nat.lt_or_eq_of_le hv.cursor_le with hlt | hend
  · rw [step_placed hb.stands hlt, step_placed hb'.stands hlt]
    cases hstep : stepAt b (home b v) piece[v.cursor] with
    | next w =>
      obtain ⟨v', rfl, hv', hstep'⟩ := movesAlong_home hb hb' hv hlt hstep
      exact .inl ⟨v', hv', rfl, hstep'⟩
    | halt result =>
      cases hstep' : stepAt b' (home b' v) piece[v.cursor] with
      | next w =>
        obtain ⟨v', -, -, hgoes⟩ := movesAlong_home hb' hb hv hlt hstep'
        rw [hstep] at hgoes
        cases hgoes
      | halt result' =>
        refine .inr ⟨result, result', rfl, rfl, ?_⟩
        have hnone := hb.no_barrier _ (List.getElem_mem hlt)
        rcases stepAt_eq_halt hnone hstep with ⟨rfl, hruntime⟩ | ⟨e, rfl, -, hfails⟩
        · rcases stepAt_eq_halt hnone hstep' with ⟨rfl, -⟩ | ⟨e', rfl, -, hfails'⟩
          · rfl
          · exact absurd (haltsOnRuntime_home hb hb' hlt hruntime) hfails'
        · rcases stepAt_eq_halt hnone hstep' with ⟨rfl, hruntime'⟩ | ⟨e', rfl, -, -⟩
          · exact absurd (haltsOnRuntime_home hb' hb hlt hruntime') hfails
          · rfl
  · exact .inr ⟨_, _, step_home_end hb hend, step_home_end hb' hend, rfl⟩

theorem run_alike (hb : b.Is piece) (hb' : b'.Is piece) (hv : v.Within piece.length) :
    (run b (home b v)).toOption = (run b' (home b' v)).toOption := by
  induction hwork : b.work (home b v) using Nat.strongRecOn generalizing v with
  | _ work ih =>
    rcases step_alike hb hb' hv with ⟨v', hv', hstep, hstep'⟩ | ⟨r, r', hhalt, hhalt', hsame⟩
    · rw [run_of_next hstep, run_of_next hstep']
      exact ih _ (hwork ▸ work_step hstep) hv' rfl
    · rw [run_of_halt hhalt, run_of_halt hhalt', hsame]

end Alike

end Walk

namespace Block

variable {b b' : Block} {piece : List Instruction}

/-- Blocks with the same code have the same timing, or none. -/
theorem Is.toOption_timing (hb : b.Is piece) (hb' : b'.Is piece) :
    b.timing.toOption = b'.timing.toOption := by
  rw [timing, timing, ← Walk.home_entry, ← Walk.home_entry]
  exact Walk.run_alike hb hb' (Walk.within_entry _)

/-- The code of a block. -/
def body (b : Block) : List Instruction := (b.lane.code.take b.last).drop b.first

theorem Is.body_eq (hb : b.Is piece) : b.body = piece := by
  obtain ⟨before, after, hcode, hfirst⟩ := hb.stands
  have hlast : b.last = (before ++ piece).length := by rw [hb.last_eq, List.length_append, hfirst]
  rw [body, hcode, hlast, List.take_left, ← hfirst, List.drop_left]

/-- Code as the only block of a lane. -/
def alone (piece : List Instruction) : Block := ⟨⟨⟨0⟩, piece⟩, 0, piece.length, 0⟩

theorem Is.alone (hb : b.Is piece) : (alone piece).Is piece where
  stands := .whole piece
  last_eq := (Nat.zero_add _).symm
  no_barrier := hb.no_barrier
  ends := .inl (List.getElem?_eq_none (Nat.le_refl _))

theorem Is.timing_alone (hb : b.Is piece) :
    b.timing.toOption = (Block.alone b.body).timing.toOption := by
  rw [hb.body_eq]
  exact hb.toOption_timing hb.alone

theorem ticks_of_toOption (h : b.timing.toOption = b'.timing.toOption) : b.ticks = b'.ticks := by
  cases hb : b.timing <;> cases hb' : b'.timing <;> simp_all [ticks, Except.toOption]

theorem isDynamic_of_toOption (h : b.timing.toOption = b'.timing.toOption) :
    b.isDynamic = b'.isDynamic := by
  cases hb : b.timing <;> cases hb' : b'.timing <;> simp_all [isDynamic, Except.toOption]

end Block

/-! ## What stands in the place of a barrier -/

namespace Alignment

/-- The code that each lane has before its barrier of a rank. -/
def bodies (lanes : List Lane) (rank : Nat) : List (List Instruction) :=
  lanes.map fun lane => (lane.block rank).body

/-- Whether some piece of code depends on runtime values. -/
def anyDynamic (pieces : List (List Instruction)) : Bool :=
  pieces.any fun piece => (Block.alone piece).isDynamic

/-- The ticks of the slowest of some pieces of code. -/
def slowestOf (pieces : List (List Instruction)) : Nat :=
  pieces.foldr (fun piece ticks => max (Block.alone piece).ticks ticks) 0

/-- What stands in the place of a barrier in the lane at a position, where these pieces of code
stand before the barrier in the lanes: a meeting, or the delay up to the slowest lane. -/
def inPlace (pieces : List (List Instruction)) (lane : Nat) : List Instruction :=
  if anyDynamic pieces then [.sync, .wait]
  else Decision.padding (.clamp (slowestOf pieces - (Block.alone (pieces.getD lane [])).ticks))

section InPlace

variable {lanes out : List Lane} {lane : Lane} {rank ranks i : Nat} {all : List Decision}

/-- The block of a rank by itself. -/
theorem timing_block (hcount : ∀ lane ∈ lanes, lane.barrierCount = ranks) (hrank : rank < ranks)
    (hlane : lane ∈ lanes) :
    (lane.block rank).timing.toOption =
      (Block.alone (lane.block rank).body).timing.toOption := by
  obtain ⟨piece, hb⟩ := exists_block_is hcount hrank lane hlane
  exact hb.timing_alone

theorem isDynamic_eq (hcount : ∀ lane ∈ lanes, lane.barrierCount = ranks) (hrank : rank < ranks) :
    isDynamic lanes rank = anyDynamic (bodies lanes rank) := by
  have hmap : lanes.map (fun lane => (lane.block rank).isDynamic) =
      lanes.map fun lane => (Block.alone (lane.block rank).body).isDynamic := by
    apply List.map_congr_left
    intro lane hlane
    exact Block.isDynamic_of_toOption (timing_block hcount hrank hlane)
  have hany := congrArg (List.any · id) hmap
  simp only [List.any_map] at hany
  rw [anyDynamic, bodies, List.any_map]
  exact hany

theorem slowest_eq (hcount : ∀ lane ∈ lanes, lane.barrierCount = ranks) (hrank : rank < ranks) :
    slowest lanes rank = slowestOf (bodies lanes rank) := by
  have hmap : lanes.map (fun lane => (lane.block rank).ticks) =
      lanes.map fun lane => (Block.alone (lane.block rank).body).ticks := by
    apply List.map_congr_left
    intro lane hlane
    exact Block.ticks_of_toOption (timing_block hcount hrank hlane)
  have hmax := congrArg (List.foldr max 0) hmap
  simp only [List.foldr_map] at hmax
  rw [slowestOf, bodies, List.foldr_map]
  exact hmax

/-- What settles a barrier is what the code before it in each lane calls for. -/
theorem eq_inPlace_of_settled {replacement : List Instruction}
    (hcount : ∀ lane ∈ lanes, lane.barrierCount = ranks) (hrank : rank < ranks)
    (hi : lanes[i]? = some lane) (h : Settled lanes lane rank replacement) :
    replacement = inPlace (bodies lanes rank) i := by
  have hticks : (Block.alone ((bodies lanes rank).getD i [])).ticks = (lane.block rank).ticks := by
    have hbody : (bodies lanes rank).getD i [] = (lane.block rank).body := by
      rw [bodies, List.getD_eq_getElem?_getD, List.getElem?_map, hi]
      rfl
    rw [hbody]
    exact (Block.ticks_of_toOption (timing_block hcount hrank (List.mem_of_getElem? hi))).symm
  rw [inPlace, hticks, ← isDynamic_eq hcount hrank, ← slowest_eq hcount hrank]
  cases h with
  | met hdynamic => rw [if_pos hdynamic]
  | last hknown hslowest =>
    rw [hknown, hslowest, Nat.sub_self]
    rfl
  | delayed delay hknown hpositive hsum =>
    have hdelay : Duration.clamp (slowest lanes rank - (lane.block rank).ticks) = delay := by
      rw [← hsum, Nat.add_sub_cancel_left, Duration.clamp_ticks]
    rw [hknown, hdelay, Decision.padding]
    exact (if_neg (Nat.ne_of_gt hpositive)).symm

/-- The decisions put into effect what the code before each barrier calls for. -/
theorem map_replacement (h : decisions lanes ranks = .ok all)
    (hcount : ∀ lane ∈ lanes, lane.barrierCount = ranks) (hi : lanes[i]? = some lane) :
    all.map (·.replacement i) =
      (List.range ranks).map fun rank => inPlace (bodies lanes rank) i := by
  apply List.ext_getElem
  · rw [List.length_map, List.length_map, length_decisions h, List.length_range]
  · intro rank hleft hright
    rw [List.length_map, List.length_range] at hright
    rw [List.length_map] at hleft
    rw [List.getElem_map, List.getElem_map, List.getElem_range]
    have hat : all[rank]? = some all[rank] := List.getElem?_eq_getElem hleft
    exact eq_inPlace_of_settled hcount hright hi (decision_settles h hcount hright hat hi)

/-- Arranging replaces every barrier by what the code before it in each lane calls for. -/
theorem apply_eq (h : decisions lanes ranks = .ok all)
    (hcount : ∀ lane ∈ lanes, lane.barrierCount = ranks) :
    apply all lanes = lanes.mapIdx fun i lane =>
      { lane with
        code := replaceBarriers ((List.range ranks).map fun rank => inPlace (bodies lanes rank) i)
          lane.code } := by
  apply List.ext_getElem?
  intro i
  rw [apply, List.getElem?_mapIdx, List.getElem?_mapIdx]
  cases hi : lanes[i]? with
  | none => rfl
  | some lane => rw [Option.map_some, Option.map_some, map_replacement h hcount hi]

/-- Whether a piece of code can be walked. -/
def IsWalkable (piece : List Instruction) : Prop :=
  ∃ t, (Block.alone piece).timing.toOption = some t

/-- Lanes can be arranged if the code before every barrier can be walked. -/
theorem exists_decisions_iff (hcount : ∀ lane ∈ lanes, lane.barrierCount = ranks) :
    (∃ all, decisions lanes ranks = .ok all) ↔
      ∀ rank < ranks, ∀ piece ∈ bodies lanes rank, IsWalkable piece := by
  constructor
  · rintro ⟨all, hall⟩ rank hrank piece hpiece
    obtain ⟨lane, hlane, rfl⟩ := List.mem_map.1 hpiece
    obtain ⟨t, ht⟩ := timing_of_decisions hall hcount hrank hlane
    refine ⟨t, ?_⟩
    rw [← timing_block hcount hrank hlane, ht]
    rfl
  · intro hwalkable
    apply exists_decisions_eq_ok
    intro rank hrank lane hlane
    obtain ⟨t, ht⟩ := hwalkable rank hrank _ (List.mem_map_of_mem hlane)
    rw [← timing_block hcount hrank hlane] at ht
    cases htiming : (lane.block rank).timing with
    | ok found => exact ⟨found, rfl⟩
    | error e =>
      rw [htiming] at ht
      cases ht

theorem synchronized_eq (h : decisions lanes ranks = .ok all)
    (hcount : ∀ lane ∈ lanes, lane.barrierCount = ranks) :
    (report all).synchronized =
      (List.range ranks).countP fun rank => anyDynamic (bodies lanes rank) := by
  rw [synchronized_report h hcount]
  apply List.countP_congr
  intro rank hrank
  rw [isDynamic_eq hcount (List.mem_range.1 hrank)]

end InPlace

end Alignment

/-! ## Joined lanes -/

/-- A lane that goes on with the code of another. -/
def Lane.followedBy (a b : Lane) : Lane := { a with code := a.code ++ b.code }

namespace Lane

variable {a b : Lane} {rank : Nat}

theorem barrierCount_followedBy (a b : Lane) :
    (a.followedBy b).barrierCount = a.barrierCount + b.barrierCount :=
  List.countP_append

theorem body_block {ss : List Stretch} {rest : List Instruction}
    (h : a.code = Stretch.codeOf ss ++ rest) (hrank : rank < ss.length) :
    (a.block rank).body = ss[rank].body :=
  (Stretch.block_is h hrank).body_eq

/-- What follows does not change the code before the barriers of a lane. -/
theorem body_followedBy_left (hends : a.code.getLast?.any Instruction.isBarrier = true)
    (hrank : rank < a.barrierCount) :
    ((a.followedBy b).block rank).body = (a.block rank).body := by
  obtain ⟨ss, hcode, hlength⟩ := a.exists_stretches hends
  rw [← hlength] at hrank
  have hown : a.code = Stretch.codeOf ss ++ [] := by rw [hcode, List.append_nil]
  have hjoined : (a.followedBy b).code = Stretch.codeOf ss ++ b.code := by rw [followedBy, hcode]
  rw [body_block hown hrank, body_block hjoined hrank]

/-- A lane that follows on a barrier keeps the code before its barriers, each of which is as many
ranks later as there are barriers before. -/
theorem body_followedBy_right {m : Nat} (hends : a.code.getLast?.any Instruction.isBarrier = true)
    (hcount : a.barrierCount = m) (hrank : rank < b.barrierCount) :
    ((a.followedBy b).block (m + rank)).body = (b.block rank).body := by
  obtain ⟨ss, hcode, hlength⟩ := a.exists_stretches hends
  obtain ⟨ts, rest, hcode', hrest⟩ := Stretch.exists_codeOf_append b.code
  rw [barrierCount, hcode', Stretch.countP_codeOf_append hrest] at hrank
  have hjoined : (a.followedBy b).code = Stretch.codeOf (ss ++ ts) ++ rest := by
    rw [followedBy, hcode, hcode', Stretch.codeOf_append, List.append_assoc]
  have hpacedr : ss.length + rank < (ss ++ ts).length := by
    rw [List.length_append]
    exact Nat.add_lt_add_left hrank _
  rw [← hcount, ← hlength, body_block hjoined hpacedr, body_block hcode' hrank,
    List.getElem_append_right (Nat.le_add_right _ _)]
  simp only [Nat.add_sub_cancel_left]

end Lane

theorem replaceBarriers_append {xs ys : List (List Instruction)} {code rest : List Instruction}
    (h : code.countP Instruction.isBarrier = xs.length) :
    replaceBarriers (xs ++ ys) (code ++ rest) =
      replaceBarriers xs code ++ replaceBarriers ys rest := by
  induction code generalizing xs with
  | nil =>
    obtain rfl : xs = [] := List.eq_nil_of_length_eq_zero h.symm
    rfl
  | cons i code ih =>
    rw [List.cons_append, replaceBarriers, replaceBarriers]
    cases hi : i.isBarrier with
    | false =>
      rw [List.countP_cons_of_neg (by rw [hi]; exact Bool.noConfusion)] at h
      simp only [ih h, Bool.false_eq_true, if_false, List.cons_append]
    | true =>
      rw [List.countP_cons_of_pos hi] at h
      cases xs with
      | nil => cases h
      | cons x xs =>
        have hrest := ih (Nat.succ.inj h)
        simp only [if_true, List.cons_append, List.headD_cons, List.tail_cons, hrest,
          List.append_assoc]

/-- Lanes that go on where other lanes end, lane by lane. -/
def joined (first second : List Lane) : List Lane := first.zipWith Lane.followedBy second

/-- Lanes that end at their last barrier and lanes that can follow them: the same lanes in the same
order, with as many barriers as one another in each of the two lists. -/
structure Joinable (first second : List Lane) (m n : Nat) : Prop where
  ids : first.map Lane.id = second.map Lane.id
  count_first : ∀ lane ∈ first, lane.barrierCount = m
  ends_first : ∀ lane ∈ first, lane.code.getLast?.any Instruction.isBarrier = true
  count_second : ∀ lane ∈ second, lane.barrierCount = n

namespace Joinable

open Lockstep.Alignment

variable {first second : List Lane} {m n : Nat}

theorem length_eq (h : Joinable first second m n) : first.length = second.length := by
  have hlength := congrArg List.length h.ids
  rwa [List.length_map, List.length_map] at hlength

theorem length_joined (h : Joinable first second m n) :
    (joined first second).length = first.length := by
  rw [joined, List.length_zipWith, ← h.length_eq, Nat.min_self]

theorem count (h : Joinable first second m n) :
    ∀ lane ∈ joined first second, lane.barrierCount = m + n := by
  intro lane hlane
  obtain ⟨i, hi⟩ := List.getElem?_of_mem hlane
  obtain ⟨a, b, ha, hb, rfl⟩ := List.getElem?_zipWith_eq_some.1 hi
  rw [Lane.barrierCount_followedBy, h.count_first a (List.mem_of_getElem? ha),
    h.count_second b (List.mem_of_getElem? hb)]

/-- Unless there are no lanes, each part has its number of barriers, and so have both together. -/
theorem commonCounts (h : Joinable first second m n) (hsome : first ≠ []) :
    commonCount? first = some m ∧ commonCount? second = some n ∧
      commonCount? (joined first second) = some (m + n) := by
  have hpositive : first.length ≠ 0 := mt List.eq_nil_of_length_eq_zero hsome
  have hsecond : second ≠ [] := by
    rintro rfl
    exact hpositive h.length_eq
  have hjoined : joined first second ≠ [] := by
    intro hnil
    have hlength := h.length_joined
    rw [hnil] at hlength
    exact hpositive hlength.symm
  exact ⟨commonCount?_eq_some (absurd · hsome) h.count_first,
    commonCount?_eq_some (absurd · hsecond) h.count_second,
    commonCount?_eq_some (absurd · hjoined) h.count⟩

theorem bodies_left (h : Joinable first second m n) {rank : Nat} (hrank : rank < m) :
    bodies (joined first second) rank = bodies first rank := by
  apply List.ext_getElem
  · rw [bodies, bodies, List.length_map, List.length_map, h.length_joined]
  · intro i _ hi
    rw [bodies, List.length_map] at hi
    have hmem := List.getElem_mem hi
    simp only [bodies, joined, List.getElem_map, List.getElem_zipWith]
    exact Lane.body_followedBy_left (h.ends_first _ hmem) (h.count_first _ hmem ▸ hrank)

theorem bodies_right (h : Joinable first second m n) {rank : Nat} (hrank : rank < n) :
    bodies (joined first second) (m + rank) = bodies second rank := by
  apply List.ext_getElem
  · rw [bodies, bodies, List.length_map, List.length_map, h.length_joined, h.length_eq]
  · intro i _ hi
    rw [bodies, List.length_map] at hi
    have hleft : i < first.length := h.length_eq ▸ hi
    have hmem := List.getElem_mem hleft
    have hmem' := List.getElem_mem hi
    simp only [bodies, joined, List.getElem_map, List.getElem_zipWith]
    exact Lane.body_followedBy_right (h.ends_first _ hmem) (h.count_first _ hmem)
      (h.count_second _ hmem' ▸ hrank)

/-- What is so of every rank of joined lanes is so of the ranks of each part. -/
theorem forall_bodies_iff (h : Joinable first second m n) {p : List (List Instruction) → Prop} :
    (∀ rank < m + n, p (bodies (joined first second) rank)) ↔
      (∀ rank < m, p (bodies first rank)) ∧ ∀ rank < n, p (bodies second rank) := by
  constructor
  · intro hall
    refine ⟨?_, ?_⟩
    · intro rank hrank
      rw [← h.bodies_left hrank]
      exact hall rank (by omega)
    · intro rank hrank
      rw [← h.bodies_right hrank]
      exact hall (m + rank) (by omega)
  · rintro ⟨hleft, hright⟩ rank hrank
    rcases Nat.lt_or_ge rank m with hlt | hge
    · rw [h.bodies_left hlt]
      exact hleft rank hlt
    · obtain ⟨k, rfl⟩ := Nat.exists_eq_add_of_le hge
      have hk : k < n := by omega
      rw [h.bodies_right hk]
      exact hright k hk

/-- What is told of every rank of joined lanes is told of the ranks of each part in turn. -/
theorem map_bodies (h : Joinable first second m n) {α : Type} (f : List (List Instruction) → α) :
    (List.range (m + n)).map (fun rank => f (bodies (joined first second) rank)) =
      (List.range m).map (fun rank => f (bodies first rank)) ++
        (List.range n).map fun rank => f (bodies second rank) := by
  rw [List.range_add, List.map_append, List.map_map]
  congr 1
  · apply List.map_congr_left
    intro rank hrank
    rw [h.bodies_left (List.mem_range.1 hrank)]
  · apply List.map_congr_left
    intro rank hrank
    rw [Function.comp_apply, h.bodies_right (List.mem_range.1 hrank)]

/-- Joined lanes can be arranged exactly if each part can. -/
theorem exists_decisions_iff (h : Joinable first second m n) :
    (∃ all, decisions (joined first second) (m + n) = .ok all) ↔
      (∃ all, decisions first m = .ok all) ∧ ∃ all, decisions second n = .ok all := by
  rw [Alignment.exists_decisions_iff h.count, Alignment.exists_decisions_iff h.count_first,
    Alignment.exists_decisions_iff h.count_second]
  exact h.forall_bodies_iff (p := fun pieces => ∀ piece ∈ pieces, IsWalkable piece)

section Parts

variable {all all₁ all₂ : List Decision}

/-- Joined lanes are arranged part by part. -/
theorem apply_joined (h : Joinable first second m n)
    (hall : decisions (joined first second) (m + n) = .ok all)
    (hfirst : decisions first m = .ok all₁) (hsecond : decisions second n = .ok all₂) :
    apply all (joined first second) = joined (apply all₁ first) (apply all₂ second) := by
  rw [apply_eq hall h.count, apply_eq hfirst h.count_first, apply_eq hsecond h.count_second]
  apply List.ext_getElem
  · simp only [joined, List.length_mapIdx, List.length_zipWith]
  · intro i hi hi'
    have hleft : i < first.length := by
      rwa [List.length_mapIdx, h.length_joined] at hi
    have hmap := h.map_bodies (inPlace · i)
    -- The barriers of the first part use up what is in place for its ranks.
    have hcount : first[i].code.countP Instruction.isBarrier =
        ((List.range m).map fun rank => inPlace (bodies first rank) i).length := by
      rw [List.length_map, List.length_range]
      exact h.count_first _ (List.getElem_mem hleft)
    simp only [joined, List.getElem_mapIdx, List.getElem_zipWith, Lane.followedBy] at hmap ⊢
    rw [hmap, replaceBarriers_append hcount]

theorem synchronized_joined (h : Joinable first second m n)
    (hall : decisions (joined first second) (m + n) = .ok all)
    (hfirst : decisions first m = .ok all₁) (hsecond : decisions second n = .ok all₂) :
    (report all).synchronized = (report all₁).synchronized + (report all₂).synchronized := by
  have hmap := congrArg (List.countP id) (h.map_bodies anyDynamic)
  simp only [List.countP_append, List.countP_map] at hmap
  rw [synchronized_eq hall h.count, synchronized_eq hfirst h.count_first,
    synchronized_eq hsecond h.count_second]
  exact hmap

end Parts

end Joinable

open Lockstep.Alignment

theorem exists_alignLanes_iff {lanes : List Lane} {ranks : Nat}
    (hcommon : commonCount? lanes = some ranks) :
    (∃ report, (alignLanes lanes).1 = .ok report) ↔ ∃ all, decisions lanes ranks = .ok all := by
  constructor
  · rintro ⟨report, h⟩
    obtain ⟨all, hall, -⟩ := exists_decisions hcommon (Prod.ext h rfl)
    exact ⟨all, hall⟩
  · rintro ⟨all, hall⟩
    exact ⟨_, congrArg Prod.fst (alignLanes_of_decisions hcommon hall)⟩

/-- Arranging is compositional at barriers. Where lanes end at their last barrier and others follow,
the joined lanes can be arranged exactly if each part can be arranged by itself. They are then the
joined parts as these are arranged, and their report counts the ranks, the meetings at run time and
the other ranks of both. In each lane, what stands in the place of the barrier of a rank is a
function of the code that the lanes have before their barriers of this rank, and of nothing else. -/
theorem alignLanes_joined {first second : List Lane} {m n : Nat} (h : Joinable first second m n) :
    ((∃ report, (alignLanes (joined first second)).1 = .ok report) ↔
      (∃ report, (alignLanes first).1 = .ok report) ∧
        ∃ report, (alignLanes second).1 = .ok report) ∧
    ∀ out₁ report₁ out₂ report₂, alignLanes first = (.ok report₁, out₁) →
      alignLanes second = (.ok report₂, out₂) →
      ∃ report, alignLanes (joined first second) = (.ok report, joined out₁ out₂) ∧
        report.ranks = report₁.ranks + report₂.ranks ∧
        report.synchronized = report₁.synchronized + report₂.synchronized ∧
        report.elided + report.padded =
          report₁.elided + report₁.padded + (report₂.elided + report₂.padded) ∧
        report.mismatch = none ∧
        joined out₁ out₂ = (joined first second).mapIdx fun i lane =>
          { lane with
            code := replaceBarriers
              ((List.range (m + n)).map fun rank => inPlace (bodies (joined first second) rank) i)
              lane.code } := by
  by_cases hnone : first = []
  · -- Without lanes there are no ranks, whatever numbers `m` and `n` are.
    subst hnone
    obtain rfl : second = [] := List.eq_nil_of_length_eq_zero h.length_eq.symm
    have hempty : (alignLanes []).1 = .ok .empty := rfl
    refine ⟨⟨fun _ => ⟨⟨_, hempty⟩, ⟨_, hempty⟩⟩, fun _ => ⟨_, hempty⟩⟩, ?_⟩
    intro out₁ report₁ out₂ report₂ hfirst hsecond
    cases hfirst
    cases hsecond
    exact ⟨.empty, rfl, rfl, rfl, rfl, rfl, rfl⟩
  · obtain ⟨hcommon₁, hcommon₂, hcommon⟩ := h.commonCounts hnone
    have hiff : (∃ report, (alignLanes (joined first second)).1 = .ok report) ↔
        (∃ report, (alignLanes first).1 = .ok report) ∧
          ∃ report, (alignLanes second).1 = .ok report := by
      rw [exists_alignLanes_iff hcommon, exists_alignLanes_iff hcommon₁,
        exists_alignLanes_iff hcommon₂]
      exact h.exists_decisions_iff
    refine ⟨hiff, ?_⟩
    intro out₁ report₁ out₂ report₂ hfirst hsecond
    obtain ⟨all₁, hall₁, rfl, rfl⟩ := exists_decisions hcommon₁ hfirst
    obtain ⟨all₂, hall₂, rfl, rfl⟩ := exists_decisions hcommon₂ hsecond
    obtain ⟨all, hall⟩ := h.exists_decisions_iff.2 ⟨⟨all₁, hall₁⟩, all₂, hall₂⟩
    have hsynchronized := h.synchronized_joined hall hall₁ hall₂
    have hranks : all.length = all₁.length + all₂.length := by
      rw [length_decisions hall, length_decisions hall₁, length_decisions hall₂]
    refine ⟨report all, ?_, hranks, hsynchronized, ?_, rfl, ?_⟩
    · rw [← h.apply_joined hall hall₁ hall₂]
      exact alignLanes_of_decisions hcommon hall
    · -- Every rank that is not a meeting at run time is one of the others.
      have hsum := report_sum all
      have hsum₁ := report_sum all₁
      have hsum₂ := report_sum all₂
      omega
    · rw [← h.apply_joined hall hall₁ hall₂]
      exact apply_eq hall h.count

/-- Two lanes that meet after one of them has made a choice. -/
def earlyLanes : List Lane :=
  [⟨⟨0⟩, [.gotoIf ⟨"m", .ne, 0⟩ ⟨"skip"⟩, .pulse "Y" (.clamp 5), .label ⟨"skip"⟩, .barrier ⟨0⟩ []]⟩,
    ⟨⟨1⟩, [.barrier ⟨0⟩ []]⟩]

/-- Two lanes that start at a barrier and go on to another, one of them faster. -/
def pacedLanes : List Lane :=
  [⟨⟨0⟩, [.barrier ⟨1⟩ [], .pulse "X" (.clamp 10), .barrier ⟨2⟩ []]⟩,
    ⟨⟨1⟩, [.barrier ⟨1⟩ [], .pulse "Z" (.clamp 4), .barrier ⟨2⟩ [], .pulse "W" (.clamp 1)]⟩]

/-- The lanes that come of the first two. -/
def earlyArranged : List Lane :=
  [⟨⟨0⟩, [.gotoIf ⟨"m", .ne, 0⟩ ⟨"skip"⟩, .pulse "Y" (.clamp 5), .label ⟨"skip"⟩, .sync, .wait]⟩,
    ⟨⟨1⟩, [.sync, .wait]⟩]

/-- The lanes that come of the other two. -/
def pacedArranged : List Lane :=
  [⟨⟨0⟩, [.pulse "X" (.clamp 10)]⟩,
    ⟨⟨1⟩, [.pulse "Z" (.clamp 4), .delay (.clamp 6), .pulse "W" (.clamp 1)]⟩]

/-- The choice in the first part does not keep the second from being delayed. -/
theorem alignLanes_early_paced :
    Joinable earlyLanes pacedLanes 1 2 ∧
      alignLanes earlyLanes = (.ok ⟨1, 0, 0, 1, none⟩, earlyArranged) ∧
      alignLanes pacedLanes = (.ok ⟨2, 1, 1, 0, none⟩, pacedArranged) ∧
      ∃ report, alignLanes (joined earlyLanes pacedLanes) =
          (.ok report, joined earlyArranged pacedArranged) ∧
        report.ranks = 3 ∧ report.synchronized = 1 ∧ report.elided + report.padded = 2 := by
  have h : Joinable earlyLanes pacedLanes 1 2 := ⟨rfl, by decide, by decide, by decide⟩
  have hearly : decisions earlyLanes 1 = .ok [.synchronize] := by cbv
  have hpaced : decisions pacedLanes 2 = .ok [.elide, .pad [.clamp 0, .clamp 6]] := by cbv
  have hfirst : alignLanes earlyLanes = (.ok ⟨1, 0, 0, 1, none⟩, earlyArranged) :=
    alignLanes_of_decisions rfl hearly
  have hsecond : alignLanes pacedLanes = (.ok ⟨2, 1, 1, 0, none⟩, pacedArranged) :=
    alignLanes_of_decisions rfl hpaced
  obtain ⟨-, hjoined⟩ := alignLanes_joined h
  obtain ⟨report, halign, hranks, hsynchronized, hothers, -, -⟩ :=
    hjoined _ _ _ _ hfirst hsecond
  exact ⟨h, hfirst, hsecond, report, halign, hranks, hsynchronized, hothers⟩

end Lockstep
