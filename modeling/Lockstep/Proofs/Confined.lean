import Lockstep.Proofs.Refused

/-!
# Walks stay in their blocks

A block is a piece of its lane with a barrier, or the end of the lane, after it and no barrier in
it. Jumps are looked for in the block only, positions to return to are those after a call, and the
head of a loop is looked for after the place where the loop was opened. So whatever the instructions
are, a step from a place in a block leads to a place in it (`Walk.within_of_step`), and all of a
walk is there (`Walk.within_of_after`). The barrier that the walk comes to, if it comes to any, is
the one of its own block, and a walk is never out of step with the ranks.
-/

set_option autoImplicit false

namespace Lockstep

namespace Walk

/-! ## Places in a block -/

section Places

variable {b b' : Block} {piece : List Instruction} {v w : Walk}

/-- A step in one block is a step in any other with the same code. -/
theorem movesAlong_home (hb : b.Is piece) (hb' : b'.Is piece) (hv : v.Within piece.length)
    (hlt : v.cursor < piece.length) (h : stepAt b (home b v) piece[v.cursor] = .next w) :
    MovesAlong b b' piece b'.first .zero [] [] v w piece[v.cursor] := by
  apply stepAt_placed hb hb'.stands (Nat.le_of_eq hb'.last_eq.symm) _ hv hlt
    (List.getElem_mem hlt) h
  intro _
  exact ⟨rfl, rfl⟩

/-- A step from a place in a block leads to a place in it. -/
theorem within_of_step (hb : b.Is piece) (hv : v.Within piece.length)
    (h : step b (home b v) = .next w) : ∃ v', w = home b v' ∧ v'.Within piece.length := by
  rcases Nat.lt_or_eq_of_le hv.cursor_le with hlt | hend
  · rw [step_placed hb.stands hlt] at h
    obtain ⟨v', rfl, hv', -⟩ := movesAlong_home hb hb hv hlt h
    exact ⟨v', rfl, hv'⟩
  · rw [step_home_end hb hend] at h
    cases h

/-- All of a walk that starts in a block is in it. -/
theorem within_of_after {n : Nat} (hb : b.Is piece) (hv : v.Within piece.length)
    (h : after b n (home b v) = .next w) : ∃ v', w = home b v' ∧ v'.Within piece.length := by
  induction n generalizing v with
  | zero =>
    cases h
    exact ⟨v, rfl, hv⟩
  | succ n ih =>
    cases hstep : step b (home b v) with
    | halt result =>
      simp only [after, hstep] at h
      cases h
    | next u =>
      simp only [after, hstep] at h
      obtain ⟨v', rfl, hv'⟩ := within_of_step hb hv hstep
      exact ih hv' h

/-- A walk in a block sees no barrier, and no end of the lane, but that at the end of the block. -/
theorem ends_home_iff (hb : b.Is piece) (hv : v.Within piece.length) :
    b.lane.code[(home b v).cursor]?.all Instruction.isBarrier = true ↔
      (home b v).cursor = b.last := by
  have hcursor : (home b v).cursor = b.first + v.cursor := rfl
  have hlast := hb.last_eq
  constructor
  · intro hends
    rcases Nat.lt_or_eq_of_le hv.cursor_le with hlt | hend
    · have hget : b.lane.code[(home b v).cursor]? = some piece[v.cursor] := by
        rw [← List.getElem?_eq_getElem hlt]
        exact hb.stands.get hlt
      rw [hget, Option.all_some, hb.no_barrier _ (List.getElem_mem hlt)] at hends
      cases hends
    · omega
  · intro heq
    rw [heq]
    rcases hb.ends with hnone | ⟨id, lanes, hbarrier⟩
    · rw [hnone]
      rfl
    · rw [hbarrier]
      rfl

/-- A walk in a block does not miss its end. -/
theorem isDesync_of_run (hb : b.Is piece) (hv : v.Within piece.length) {e : TimingError}
    (h : run b (home b v) = .error e) : e.isDesync = false := by
  induction hwork : b.work (home b v) using Nat.strongRecOn generalizing v with
  | _ work ih =>
    cases hstep : step b (home b v) with
    | next w =>
      rw [run_of_next hstep] at h
      have hless := work_step hstep
      obtain ⟨v', rfl, hv'⟩ := within_of_step hb hv hstep
      exact ih _ (hwork ▸ hless) hv' h rfl
    | halt result =>
      rw [run_of_halt hstep] at h
      subst h
      rcases Nat.lt_or_eq_of_le hv.cursor_le with hlt | hend
      · rw [step_placed hb.stands hlt] at hstep
        have hnone := hb.no_barrier _ (List.getElem_mem hlt)
        rcases stepAt_eq_halt hnone hstep with ⟨hdynamic, -⟩ | ⟨e', he', hsync, -⟩
        · cases hdynamic
        · cases he'
          exact hsync
      · rw [step_home_end hb hend] at hstep
        cases hstep

end Places

end Walk

theorem Block.Is.isDesync_of_timing {b : Block} {piece : List Instruction} (hb : b.Is piece)
    {e : TimingError} (h : b.timing = .error e) : e.isDesync = false := by
  rw [timing, ← Walk.home_entry] at h
  exact Walk.isDesync_of_run hb (Walk.within_entry _) h

open Lockstep.Alignment

/-- No walk leaves its block. For lanes of any content, the walk up to a barrier of a lane, or from
its last barrier to its end, is at every step between the first and the last position of its block,
and the only barrier or end of the lane that it comes to is the one at the last position. So neither
arranging lanes nor timing a lane fails because a walk has missed the end of its block. -/
theorem walks_stay_in_their_blocks (lanes : List Lane) :
    (∀ lane ∈ lanes, ∀ rank ≤ lane.barrierCount, ∀ n w,
      Walk.after (lane.block rank) n (lane.block rank).start = .next w →
        (lane.block rank).first ≤ w.cursor ∧ w.cursor ≤ (lane.block rank).last ∧
        (lane.code[w.cursor]?.all Instruction.isBarrier = true ↔
          w.cursor = (lane.block rank).last)) ∧
    (∀ e, (alignLanes lanes).1 = .error e → e.isDesync = false) ∧
    ∀ lane ∈ lanes, ∀ e, lane.timing = .error e → e.isDesync = false := by
  refine ⟨?_, ?_, ?_⟩
  · intro lane hlane rank hrank n w hafter
    obtain ⟨piece, hb⟩ := lane.exists_block_is hrank
    rw [← Walk.home_entry] at hafter
    obtain ⟨v, rfl, hv⟩ := Walk.within_of_after hb (Walk.within_entry _) hafter
    refine ⟨Nat.le_add_right _ _, ?_, Walk.ends_home_iff hb hv⟩
    rw [hb.last_eq]
    exact Nat.add_le_add_left hv.cursor_le _
  · intro e he
    -- Only lanes with as many barriers as one another are walked, each to one of its barriers.
    cases hcommon : commonCount? lanes with
    | none =>
      rw [alignLanes, hcommon] at he
      cases he
    | some ranks =>
      have hcount := barrierCount_of_commonCount? hcommon
      obtain ⟨rank, lane, hturn, hfails⟩ := exists_turn_of_error hcount he
      obtain ⟨hrank, -, hlane⟩ := mem_turns.1 hturn
      rw [← hcount lane hlane] at hrank
      obtain ⟨piece, hb⟩ := lane.exists_block_is (Nat.le_of_lt hrank)
      exact hb.isDesync_of_timing hfails
  · intro lane _ e he
    obtain ⟨piece, hb⟩ := lane.exists_block_is (Nat.zero_le _)
    exact hb.isDesync_of_timing he

/-- In its second block, this lane calls a piece of code that opens a loop and returns to before it;
there the end of a loop looks for a label that stands before it and after the block, but not after
the place where the loop was opened. -/
def strayLane : Lane :=
  ⟨⟨0⟩, [.barrier ⟨0⟩ [], .call ⟨"sub"⟩, .label ⟨"top"⟩, .repeatFrom ⟨"top"⟩, .label ⟨"sub"⟩,
    .loadRepeat 2, .ret, .barrier ⟨1⟩ [], .label ⟨"top"⟩]⟩

/-- The walk comes back from the end of the block to the end of the loop, and fails there. -/
theorem strayLane_stays_in_block :
    Walk.after (strayLane.block 1) 3 (strayLane.block 1).start =
        .next ⟨6, .zero, [2], [⟨2, 5, 6, .zero⟩]⟩ ∧
      Walk.after (strayLane.block 1) 5 (strayLane.block 1).start =
        .next ⟨3, .zero, [], [⟨2, 5, 6, .zero⟩]⟩ ∧
      ((strayLane.block 1).first ≤ 3 ∧ 3 ≤ (strayLane.block 1).last ∧
        (strayLane.code[3]?.all Instruction.isBarrier = true ↔ 3 = (strayLane.block 1).last)) ∧
      alignLanes [strayLane] = (.error (.unresolvedRepeat ⟨0⟩ ⟨"top"⟩), [strayLane]) ∧
      (TimingError.unresolvedRepeat ⟨0⟩ ⟨"top"⟩).isDesync = false ∧
      (Lane.mk ⟨1⟩ [.ret]).timing = .error (.returnWithoutCall ⟨1⟩ 0) ∧
      (TimingError.returnWithoutCall ⟨1⟩ 0).isDesync = false := by
  have hcount : ∀ lane ∈ [strayLane], lane.barrierCount = 2 := by decide
  have hwalk : Walk.after (strayLane.block 1) 5 (strayLane.block 1).start =
      .next ⟨3, .zero, [], [⟨2, 5, 6, .zero⟩]⟩ := rfl
  have hfails : (alignLanes [strayLane]).1 = .error (.unresolvedRepeat ⟨0⟩ ⟨"top"⟩) := by
    refine (alignLanes_eq_error_iff hcount).2 (mapM_eq_error_iff.2 ⟨[], (1, strayLane), [], ?_⟩)
    refine ⟨by decide, Walk.run_of_after (n := 6) rfl, ?_⟩
    intro turn hturn
    cases hturn
  have hreturns : (Lane.mk ⟨1⟩ [.ret]).timing = .error (.returnWithoutCall ⟨1⟩ 0) :=
    Walk.run_of_after (n := 1) rfl
  obtain ⟨hstays, harranged, -⟩ := walks_stay_in_their_blocks [strayLane]
  obtain ⟨-, -, htimed⟩ := walks_stay_in_their_blocks [Lane.mk ⟨1⟩ [.ret]]
  refine ⟨rfl, hwalk, ?_, eq_of_alignLanes_error hfails, harranged _ hfails, hreturns, ?_⟩
  · exact hstays strayLane List.mem_cons_self 1 (by decide) 5 _ hwalk
  · exact htimed _ List.mem_cons_self _ hreturns

end Lockstep
