import Lockstep.Proofs.AlignedTiming
import Mathlib.Data.List.Forall2

/-!
# What becomes of the barriers

Barriers are arranged rank by rank, and one decision is taken for all lanes. `Settled` says what may
stand in the place of a lane's barrier: the two instructions of a meeting if some lane's time is not
known, otherwise the delay up to the slowest lane, or nothing where there is nothing to wait for.
`Replaced` puts that into a lane and keeps all else.

`decision_settles` is the step: the decision for a rank settles the barrier of every lane.
`alignLanes_arranges` says from it what arranging does to the lanes and what the report counts.
-/

set_option autoImplicit false

namespace Lockstep

/-! ## Replaced barriers -/

/-- Code with its barriers replaced, which are counted from a rank on. All other instructions are
kept, in order. -/
inductive Replaced (settles : Nat → List Instruction → Prop) :
    Nat → List Instruction → List Instruction → Prop
  | nil (rank : Nat) : Replaced settles rank [] []
  | kept {rank : Nat} {i : Instruction} {code out : List Instruction} :
      i.isBarrier = false → Replaced settles rank code out →
      Replaced settles rank (i :: code) (i :: out)
  | barrier {rank : Nat} {replacement code out : List Instruction} (id : BarrierId)
      (members : List LaneId) :
      settles rank replacement → Replaced settles (rank + 1) code out →
      Replaced settles rank (.barrier id members :: code) (replacement ++ out)

theorem replaced_replaceBarriers {settles : Nat → List Instruction → Prop}
    {replacements : List (List Instruction)} {rank : Nat} {code : List Instruction}
    (h : ∀ k < code.countP Instruction.isBarrier, settles (rank + k) (replacements.getD k [])) :
    Replaced settles rank code (replaceBarriers replacements code) := by
  induction code generalizing replacements rank with
  | nil => exact .nil rank
  | cons i code ih =>
    rw [replaceBarriers]
    cases hi : i.isBarrier with
    | false =>
      rw [List.countP_cons_of_neg (by rw [hi]; exact Bool.noConfusion)] at h
      exact .kept hi (ih h)
    | true =>
      cases i with
      | barrier id members =>
        rw [List.countP_cons_of_pos rfl] at h
        -- The first replacement is used up, so the others are those of the ranks after it.
        have hhead : replacements.headD [] = replacements.getD 0 [] := by cases replacements <;> rfl
        have htail : ∀ k, replacements.tail.getD k [] = replacements.getD (k + 1) [] := by
          intro k
          cases replacements <;> rfl
        rw [if_pos rfl, hhead]
        refine .barrier id members (h 0 (Nat.zero_lt_succ _)) (ih ?_)
        intro k hk
        rw [htail, Nat.add_assoc, Nat.add_comm 1 k]
        exact h (k + 1) (Nat.succ_lt_succ hk)
      | _ => cases hi

theorem replaceBarriers_of_free {code : List Instruction} (h : ∀ i ∈ code, i.isBarrier = false)
    (replacements : List (List Instruction)) : replaceBarriers replacements code = code := by
  induction code with
  | nil => rfl
  | cons i code ih =>
    obtain ⟨hi, hcode⟩ := List.forall_mem_cons.1 h
    rw [replaceBarriers, hi, ih hcode]
    rfl

theorem Lane.isBarrier_of_barrierCount {lane : Lane} (h : lane.barrierCount = 0) :
    ∀ i ∈ lane.code, i.isBarrier = false :=
  countP_isBarrier_eq_zero_iff.1 h

/-! ## Settled barriers -/

/-- Whether the time of a block depends on runtime values. -/
def Block.isDynamic (b : Block) : Bool :=
  match b.timing with
  | .ok .dynamic => true
  | _ => false

theorem Block.isDynamic_iff {b : Block} : b.isDynamic = true ↔ b.timing = .ok .dynamic := by
  unfold isDynamic
  split
  · rename_i h
    simp [h]
  · rename_i h
    simpa using h

namespace Alignment

/-- Whether some lane's time up to its barrier of a rank depends on runtime values. -/
def isDynamic (lanes : List Lane) (rank : Nat) : Bool :=
  lanes.any fun lane => (lane.block rank).isDynamic

/-- Whether no lane has an instruction before its barrier of a rank, other than barriers. -/
def isLeading (lanes : List Lane) (rank : Nat) : Bool :=
  decide (∀ r ≤ rank, ∀ lane ∈ lanes, (lane.block r).isEmpty = true)

/-- What may stand in the place of a lane's barrier of a rank. -/
inductive Settled (lanes : List Lane) (lane : Lane) (rank : Nat) : List Instruction → Prop
  /-- Some lane's time is not known: the lanes meet at run time. -/
  | met : isDynamic lanes rank = true → Settled lanes lane rank [.sync, .wait]
  /-- This lane is the slowest one, or as slow. -/
  | last : isDynamic lanes rank = false → (lane.block rank).ticks = slowest lanes rank →
      Settled lanes lane rank []
  /-- This lane is delayed until the slowest one is there. -/
  | delayed (delay : Duration) : isDynamic lanes rank = false → 0 < delay.ticks →
      (lane.block rank).ticks + delay.ticks = slowest lanes rank →
      Settled lanes lane rank [.delay delay]

section Settling

variable {lanes : List Lane} {lane : Lane} {rank ranks i : Nat} {decision : Decision}
  {all : List Decision} {replacement : List Instruction}

theorem slowest_le (lanes : List Lane) (rank : Nat) : slowest lanes rank ≤ Duration.maxTicks := by
  induction lanes with
  | nil => exact Nat.zero_le _
  | cons lane lanes ih =>
    refine Nat.max_le.2 ⟨?_, ih⟩
    unfold Block.ticks
    split
    · exact Duration.ticks_le _
    · exact Nat.zero_le _

/-- A lane that is held back is delayed by what it lacks to the slowest lane. -/
theorem settled_of_heldBack (hlane : lane ∈ lanes) (hknown : isDynamic lanes rank = false)
    (h : HeldBack lanes rank lane replacement) : Settled lanes lane rank replacement := by
  obtain ⟨t, htiming, rfl⟩ := h
  have hticks := Block.ticks_eq htiming
  have hle := ticks_le_slowest hlane rank
  have hbound := slowest_le lanes rank
  have hdelay : (Duration.clamp (slowest lanes rank) - t).ticks =
      slowest lanes rank - (lane.block rank).ticks := by
    simp only [Duration.ticks_sub, Duration.ticks_clamp]
    omega
  unfold Decision.padding
  split
  · exact .last hknown (by omega)
  · exact .delayed _ hknown (by omega) (by omega)

theorem dynamic_mem_of_fixedTimes? {timings : List Timing}
    (h : Decision.fixedTimes? timings = none) : Timing.dynamic ∈ timings := by
  induction timings with
  | nil => cases h
  | cons timing timings ih =>
    cases timing with
    | dynamic => exact List.mem_cons_self
    | fixed time => exact List.mem_cons_of_mem _ (ih (Option.map_eq_none_iff.1 h))

/-- A decision that is taken from timings walks every lane to its barrier. -/
theorem timing_of_decideRank (h : decideRank lanes rank = .ok decision) (hlane : lane ∈ lanes) :
    ∃ t, (lane.block rank).timing = .ok t := by
  obtain ⟨timings, htimings, -⟩ := exists_of_bind_eq_ok h
  have hmem : (lane.block rank).timing ∈ timings.map Except.ok := by
    rw [← map_eq_of_mapM_eq_ok htimings]
    exact List.mem_map_of_mem hlane
  obtain ⟨t, -, ht⟩ := List.mem_map.1 hmem
  exact ⟨t, ht.symm⟩

/-- Lanes that meet at run time do so because the time of one of them is not known. -/
theorem isDynamic_of_synchronize (h : decideRank lanes rank = .ok .synchronize) :
    isDynamic lanes rank = true := by
  obtain ⟨timings, htimings, hof⟩ := exists_of_bind_eq_ok h
  have hsync : Decision.ofTimings timings = .synchronize := Except.ok.inj hof
  have hnone : Decision.fixedTimes? timings = none := by
    cases htimes : Decision.fixedTimes? timings with
    | none => rfl
    | some times =>
      rw [Decision.ofTimings, htimes] at hsync
      cases hsync
  have hmem : Except.ok Timing.dynamic ∈ lanes.map fun lane => (lane.block rank).timing := by
    rw [map_eq_of_mapM_eq_ok htimings]
    exact List.mem_map_of_mem (dynamic_mem_of_fixedTimes? hnone)
  obtain ⟨lane, hlane, htiming⟩ := List.mem_map.1 hmem
  exact List.any_eq_true.2 ⟨lane, hlane, Block.isDynamic_iff.2 htiming⟩

/-- The blocks of all ranks are pieces of their lanes. -/
theorem exists_block_is (hcount : ∀ lane ∈ lanes, lane.barrierCount = ranks)
    (hrank : rank < ranks) :
    ∀ lane ∈ lanes, ∃ piece, (lane.block rank).Is piece := by
  intro lane hlane
  rw [← hcount lane hlane] at hrank
  exact lane.exists_block_is (Nat.le_of_lt hrank)

/-- The decision for a rank is to meet at run time exactly if some lane's time is not known. -/
theorem synchronize_iff (h : decisions lanes ranks = .ok all)
    (hcount : ∀ lane ∈ lanes, lane.barrierCount = ranks) (hrank : rank < ranks)
    (hat : all[rank]? = some decision) :
    decision = .synchronize ↔ isDynamic lanes rank = true := by
  constructor
  · rintro rfl
    obtain ⟨d, hd, ⟨-, rfl⟩ | ⟨-, hdecide⟩⟩ := decision_at h hrank
    · rw [hat] at hd
      cases hd
    · rw [hat] at hd
      cases hd
      exact isDynamic_of_synchronize hdecide
  · intro hdynamic
    by_contra hne
    obtain ⟨lane, hlane, htiming⟩ := List.any_eq_true.1 hdynamic
    obtain ⟨i, hi⟩ := List.getElem?_of_mem hlane
    obtain ⟨t, ht, -⟩ :=
      heldBack_of_decision h (exists_block_is hcount hrank) hrank hat hne hi
    rw [Block.isDynamic_iff, ht] at htiming
    cases htiming

/-- The decision for a rank settles the barrier of every lane. -/
theorem decision_settles (h : decisions lanes ranks = .ok all)
    (hcount : ∀ lane ∈ lanes, lane.barrierCount = ranks) (hrank : rank < ranks)
    (hat : all[rank]? = some decision) (hi : lanes[i]? = some lane) :
    Settled lanes lane rank (decision.replacement i) := by
  by_cases hdecision : decision = .synchronize
  · rw [hdecision]
    exact .met ((synchronize_iff h hcount hrank hat).1 hdecision)
  · refine settled_of_heldBack (List.mem_of_getElem? hi) ?_
      (heldBack_of_decision h (exists_block_is hcount hrank) hrank hat hdecision hi)
    rw [Bool.eq_false_iff]
    exact mt (synchronize_iff h hcount hrank hat).2 hdecision

/-- Every lane is walked to its barrier of every rank, or has nothing before it. -/
theorem timing_of_decisions (h : decisions lanes ranks = .ok all)
    (hcount : ∀ lane ∈ lanes, lane.barrierCount = ranks) (hrank : rank < ranks)
    (hlane : lane ∈ lanes) : ∃ t, (lane.block rank).timing = .ok t := by
  obtain ⟨d, -, ⟨hlt, -⟩ | ⟨-, hdecide⟩⟩ := decision_at h hrank
  · obtain ⟨t, ht, -⟩ := heldBack_of_isEmpty (exists_block_is hcount hrank)
      (isEmpty_of_lt_leading hlt) hlane
    exact ⟨_, ht⟩
  · exact timing_of_decideRank hdecide hlane

end Settling

/-! ## What the report counts -/

section Counting

variable {lanes : List Lane} {rank ranks : Nat} {all : List Decision} {decision : Decision}

theorem leading_le (lanes : List Lane) (ranks : Nat) : leading lanes ranks ≤ ranks := by
  have hle := (List.takeWhile_sublist (l := List.range ranks)
    fun rank => lanes.all fun lane => (lane.block rank).isEmpty).length_le
  rwa [List.length_range] at hle

theorem lt_leading_iff (hrank : rank < ranks) :
    rank < leading lanes ranks ↔ isLeading lanes rank = true := by
  rw [isLeading, decide_eq_true_iff]
  constructor
  · intro hlt r hr
    exact isEmpty_of_lt_leading (Nat.lt_of_le_of_lt hr hlt)
  · intro hempty
    -- All ranks up to this one pass the test, so the leading ones go on beyond it.
    have hsplit : List.range ranks = List.range (rank + 1) ++
        (List.range (ranks - (rank + 1))).map (rank + 1 + ·) := by
      rw [← List.range_add, Nat.add_sub_cancel' hrank]
    have hpass : ∀ r ∈ List.range (rank + 1),
        (lanes.all fun lane => (lane.block r).isEmpty) = true := by
      intro r hr
      exact List.all_eq_true.2 (hempty r (Nat.lt_succ_iff.1 (List.mem_range.1 hr)))
    rw [leading, hsplit, List.takeWhile_append_of_pos hpass, List.length_append, List.length_range]
    omega

/-- There are decisions if every block before a barrier has a timing. -/
theorem exists_decisions_eq_ok
    (h : ∀ rank < ranks, ∀ lane ∈ lanes, ∃ t, (lane.block rank).timing = .ok t) :
    ∃ all, decisions lanes ranks = .ok all := by
  have hranks : ∀ rank ∈ List.range' (leading lanes ranks) (ranks - leading lanes ranks),
      ∃ d, decideRank lanes rank = .ok d := by
    intro rank hmem
    have hle := leading_le lanes ranks
    have hrank : rank < ranks := by
      have := List.mem_range'_1.1 hmem
      omega
    obtain ⟨timings, htimings⟩ := exists_mapM_eq_ok (h rank hrank)
    exact ⟨.ofTimings timings, by rw [decideRank, htimings]; rfl⟩
  obtain ⟨rest, hrest⟩ := exists_mapM_eq_ok hranks
  exact ⟨_, by rw [decisions, hrest]; rfl⟩

theorem length_decisions (h : decisions lanes ranks = .ok all) : all.length = ranks := by
  obtain ⟨rest, hrest, hall⟩ := exists_of_bind_eq_ok h
  obtain rfl : List.replicate (leading lanes ranks) Decision.elide ++ rest = all :=
    Except.ok.inj hall
  have hlength := congrArg List.length (map_eq_of_mapM_eq_ok hrest)
  rw [List.length_map, List.length_map, List.length_range'] at hlength
  have hle := leading_le lanes ranks
  rw [List.length_append, List.length_replicate]
  omega

theorem elide_iff (h : decisions lanes ranks = .ok all) (hrank : rank < ranks)
    (hat : all[rank]? = some decision) : decision = .elide ↔ isLeading lanes rank = true := by
  rw [← lt_leading_iff hrank]
  obtain ⟨d, hd, ⟨hlt, rfl⟩ | ⟨hge, hdecide⟩⟩ := decision_at h hrank
  · rw [hat] at hd
    cases hd
    exact ⟨fun _ => hlt, fun _ => rfl⟩
  · rw [hat] at hd
    cases hd
    refine ⟨?_, fun hlt => absurd hlt (Nat.not_lt.2 hge)⟩
    rintro rfl
    obtain ⟨timings, -, hof⟩ := exists_of_bind_eq_ok hdecide
    have helide : Decision.ofTimings timings = .elide := Except.ok.inj hof
    unfold Decision.ofTimings at helide
    split at helide <;> cases helide

/-- The elements with a property are counted by their positions. -/
theorem countP_eq_countP_range {α : Type} {p : α → Bool} {q : Nat → Bool} {as : List α}
    (h : ∀ k a, as[k]? = some a → p a = q k) : as.countP p = (List.range as.length).countP q := by
  have hmap : as.map p = (List.range as.length).map q := by
    refine List.ext_getElem (by simp) ?_
    intro k hk _
    rw [List.length_map] at hk
    rw [List.getElem_map, List.getElem_map, List.getElem_range]
    exact h k as[k] (List.getElem?_eq_getElem hk)
  have hcount := congrArg (List.countP id) hmap
  rwa [List.countP_map, List.countP_map] at hcount

theorem elided_report (h : decisions lanes ranks = .ok all) :
    (report all).elided = (List.range ranks).countP (isLeading lanes) := by
  rw [← length_decisions h]
  refine countP_eq_countP_range ?_
  intro rank decision hat
  have hrank : rank < ranks := length_decisions h ▸ (List.getElem?_eq_some_iff.1 hat).1
  rw [Bool.eq_iff_iff, ← elide_iff h hrank hat]
  cases decision <;> simp

theorem synchronized_report (h : decisions lanes ranks = .ok all)
    (hcount : ∀ lane ∈ lanes, lane.barrierCount = ranks) :
    (report all).synchronized = (List.range ranks).countP (isDynamic lanes) := by
  rw [← length_decisions h]
  refine countP_eq_countP_range ?_
  intro rank decision hat
  have hrank : rank < ranks := length_decisions h ▸ (List.getElem?_eq_some_iff.1 hat).1
  rw [Bool.eq_iff_iff, ← synchronize_iff h hcount hrank hat]
  cases decision <;> simp

/-- Every rank is dropped, padded or synchronized. -/
theorem report_sum (all : List Decision) :
    (report all).elided + (report all).padded + (report all).synchronized = all.length := by
  induction all with
  | nil => rfl
  | cons decision all ih =>
    simp only [report, List.length_cons] at ih ⊢
    cases decision <;> simp <;> omega

end Counting

end Alignment

/-! ## Arranged lanes -/

open Lockstep.Alignment

/-- Lanes without barriers are left alone. -/
theorem alignLanes_of_barrierCount {lanes : List Lane}
    (h : ∀ lane ∈ lanes, lane.barrierCount = 0) : alignLanes lanes = (.ok .empty, lanes) := by
  have hsame : apply [] lanes = lanes := by
    refine List.ext_getElem? fun i => ?_
    rw [apply, List.getElem?_mapIdx]
    cases hi : lanes[i]? with
    | none => rfl
    | some lane =>
      have hfree := Lane.isBarrier_of_barrierCount (h lane (List.mem_of_getElem? hi))
      rw [Option.map_some, replaceBarriers_of_free hfree]
  have hcommon : commonCount? lanes = some 0 := commonCount?_eq_some (fun _ => rfl) h
  have hdecisions : decisions lanes 0 = .ok [] := rfl
  rw [alignLanes_of_decisions hcommon hdecisions, hsame]
  rfl

theorem barrierCount_of_mem_apply {all : List Decision} {lanes : List Lane} {lane : Lane}
    (h : lane ∈ apply all lanes) : lane.barrierCount = 0 := by
  obtain ⟨i, hi⟩ := List.getElem?_of_mem h
  rw [apply, List.getElem?_mapIdx] at hi
  obtain ⟨original, -, rfl⟩ := Option.map_eq_some_iff.1 hi
  exact countP_isBarrier_eq_zero_iff.2 isBarrier_of_mem_applied

/-- What arranging does to lanes with as many barriers as one another. Every lane is walked to each
of its barriers. Each barrier is replaced by what settles its rank, all else is kept, and no barrier
is left. The report counts the ranks that are dropped, those before which no lane has an
instruction; the ranks at which lanes meet at run time; and the others. Arranging the lanes again
changes nothing. -/
theorem alignLanes_arranges {lanes out : List Lane} {report : Report} {ranks : Nat}
    (hcount : ∀ lane ∈ lanes, lane.barrierCount = ranks) (hnone : lanes = [] → ranks = 0)
    (h : alignLanes lanes = (.ok report, out)) :
    (∀ lane ∈ lanes, ∀ rank < ranks, ∃ t, (lane.block rank).timing = .ok t) ∧
      List.Forall₂ (fun lane lane' => lane'.id = lane.id ∧
        Replaced (Settled lanes lane) 0 lane.code lane'.code ∧ lane'.barrierCount = 0) lanes out ∧
      report.ranks = ranks ∧
      report.elided = (List.range ranks).countP (isLeading lanes) ∧
      report.synchronized = (List.range ranks).countP (isDynamic lanes) ∧
      report.elided + report.padded + report.synchronized = ranks ∧
      report.mismatch = none ∧
      alignLanes out = (.ok .empty, out) := by
  obtain ⟨all, hall, rfl, rfl⟩ := exists_decisions (commonCount?_eq_some hnone hcount) h
  have hlength := length_decisions hall
  refine ⟨?_, ?_, hlength, elided_report hall, synchronized_report hall hcount,
    (report_sum all).trans hlength, rfl, ?_⟩
  · intro lane hlane rank hrank
    exact timing_of_decisions hall hcount hrank hlane
  · refine List.forall₂_iff_get.2 ⟨List.length_mapIdx.symm, ?_⟩
    intro i hi hi'
    have hlane : lanes[i]? = some lanes[i] := List.getElem?_eq_getElem hi
    have hget : (apply all lanes)[i] =
        ⟨lanes[i].id, replaceBarriers (all.map (·.replacement i)) lanes[i].code⟩ :=
      List.getElem_mapIdx
    refine ⟨by rw [List.get_eq_getElem, hget]; rfl, ?_,
      barrierCount_of_mem_apply (List.get_mem _ _)⟩
    rw [List.get_eq_getElem, List.get_eq_getElem, hget]
    refine replaced_replaceBarriers ?_
    intro rank hrank
    have hranks : rank < ranks := hcount lanes[i] (List.getElem_mem hi) ▸ hrank
    have hat : all[rank]? = some all[rank] := List.getElem?_eq_getElem (hlength ▸ hranks)
    rw [List.getD_eq_getElem?_getD, List.getElem?_map, hat, Nat.zero_add]
    exact decision_settles hall hcount hranks hat hlane
  · exact alignLanes_of_barrierCount fun lane hlane => barrierCount_of_mem_apply hlane

/-- Two lanes that start at a barrier; up to their last barrier, one of them makes a choice. -/
def choosingLanes : List Lane :=
  [⟨⟨0⟩, [.barrier ⟨0⟩ [], .pulse "X" (.clamp 10), .barrier ⟨1⟩ [],
      .gotoIf ⟨"m", .ne, 0⟩ ⟨"skip"⟩, .pulse "Y" (.clamp 5), .label ⟨"skip"⟩, .barrier ⟨2⟩ [],
      .pulse "W" (.clamp 1)]⟩,
    ⟨⟨1⟩, [.barrier ⟨0⟩ [], .pulse "Z" (.clamp 4), .barrier ⟨1⟩ [], .barrier ⟨2⟩ []]⟩]

/-- The lanes that come of them. -/
def chosenLanes : List Lane :=
  [⟨⟨0⟩, [.pulse "X" (.clamp 10), .gotoIf ⟨"m", .ne, 0⟩ ⟨"skip"⟩, .pulse "Y" (.clamp 5),
      .label ⟨"skip"⟩, .sync, .wait, .pulse "W" (.clamp 1)]⟩,
    ⟨⟨1⟩, [.pulse "Z" (.clamp 4), .delay (.clamp 6), .sync, .wait]⟩]

theorem alignLanes_choosingLanes :
    alignLanes choosingLanes = (.ok ⟨3, 1, 1, 1, none⟩, chosenLanes) ∧
      List.Forall₂ (fun lane lane' => lane'.id = lane.id ∧
        Replaced (Settled choosingLanes lane) 0 lane.code lane'.code ∧ lane'.barrierCount = 0)
        choosingLanes chosenLanes ∧
      (List.range 3).countP (isLeading choosingLanes) = 1 ∧
      (List.range 3).countP (isDynamic choosingLanes) = 1 ∧
      alignLanes chosenLanes = (.ok .empty, chosenLanes) := by
  have hdecisions : decisions choosingLanes 3 =
      .ok [.elide, .pad [.clamp 0, .clamp 6], .synchronize] := by cbv
  have h : alignLanes choosingLanes = (.ok ⟨3, 1, 1, 1, none⟩, chosenLanes) :=
    alignLanes_of_decisions rfl hdecisions
  have hcount : ∀ lane ∈ choosingLanes, lane.barrierCount = 3 := by decide
  obtain ⟨-, hlanes, -, helided, hsynchronized, -, -, hagain⟩ :=
    alignLanes_arranges hcount (fun hnil => by cases hnil) h
  exact ⟨h, hlanes, helided.symm, hsynchronized.symm, hagain⟩

end Lockstep
