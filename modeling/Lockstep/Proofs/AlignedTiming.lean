import Lockstep.Alignment
import Lockstep.Proofs.PlacedWalk

/-!
# Lanes that are aligned

The barriers of some lanes are replaced rank by rank by delays, each computed from blocks that are
walked on their own. The lanes that come out are walked in one go. `Walk.run_stretch` is the step of
such a walk from one barrier's place to the next, and `Walk.run_aligned` the whole of it: at the
start of each stretch the time is that of the slowest lanes so far, whatever returns and open loops
were left behind. So all lanes take the same time, which is the sum over the ranks of the slowest
lane's time.
-/

set_option autoImplicit false

namespace Lockstep

/-! ## Stretches -/

theorem countP_isBarrier_eq_zero_iff {code : List Instruction} :
    code.countP Instruction.isBarrier = 0 ↔ ∀ i ∈ code, i.isBarrier = false := by
  simp only [List.countP_eq_zero, Bool.not_eq_true]

/-- Code without a barrier and the barrier after it. -/
structure Stretch where
  body : List Instruction
  id : BarrierId
  members : List LaneId
  free : ∀ i ∈ body, i.isBarrier = false

namespace Stretch

/-- The instructions of a stretch. -/
def code (s : Stretch) : List Instruction := s.body ++ [.barrier s.id s.members]

/-- The instructions of some stretches. -/
def codeOf (ss : List Stretch) : List Instruction := ss.flatMap code

theorem codeOf_cons (s : Stretch) (ss : List Stretch) :
    codeOf (s :: ss) = s.body ++ .barrier s.id s.members :: codeOf ss := by
  simp only [codeOf, code, List.flatMap_cons, List.append_assoc, List.singleton_append]

theorem codeOf_append (ss ts : List Stretch) : codeOf (ss ++ ts) = codeOf ss ++ codeOf ts :=
  List.flatMap_append

/-- A stretch among others stands after the code of those before it. -/
theorem codeOf_append_cons (before : List Stretch) (s : Stretch) (after : List Stretch)
    (rest : List Instruction) :
    codeOf (before ++ s :: after) ++ rest =
      codeOf before ++ (s.body ++ .barrier s.id s.members :: (codeOf after ++ rest)) := by
  rw [codeOf_append, codeOf_cons]
  simp only [List.append_assoc, List.cons_append]

/-- Code consists of stretches and of what comes after its last barrier. -/
theorem exists_codeOf_append (code : List Instruction) :
    ∃ ss rest, code = codeOf ss ++ rest ∧ ∀ i ∈ rest, i.isBarrier = false := by
  induction code with
  | nil => exact ⟨[], [], rfl, fun _ hi => absurd hi List.not_mem_nil⟩
  | cons i code ih =>
    obtain ⟨ss, rest, rfl, hrest⟩ := ih
    cases hi : i.isBarrier with
    | true =>
      cases i with
      | barrier id members =>
        refine ⟨⟨[], id, members, fun _ hj => absurd hj List.not_mem_nil⟩ :: ss, rest, ?_, hrest⟩
        rw [codeOf_cons, List.nil_append, List.cons_append]
      | _ => cases hi
    | false =>
      cases ss with
      | nil => exact ⟨[], i :: rest, rfl, List.forall_mem_cons.2 ⟨hi, hrest⟩⟩
      | cons s ss =>
        refine ⟨⟨i :: s.body, s.id, s.members, ?_⟩ :: ss, rest, ?_, hrest⟩
        · exact List.forall_mem_cons.2 ⟨hi, s.free⟩
        · simp only [codeOf_cons, List.cons_append]

/-- Code that ends at a barrier consists of stretches. -/
theorem exists_codeOf {code : List Instruction} (h : ∀ i ∈ code.getLast?, i.isBarrier = true) :
    ∃ ss, code = codeOf ss := by
  obtain ⟨ss, rest, rfl, hrest⟩ := exists_codeOf_append code
  rcases List.eq_nil_or_concat rest with rfl | ⟨init, i, rfl⟩
  · exact ⟨ss, List.append_nil _⟩
  · rw [List.concat_eq_append] at h hrest
    have hlast := h i (by rw [← List.append_assoc, List.getLast?_concat]; rfl)
    rw [hrest i (List.mem_append_right init List.mem_cons_self)] at hlast
    cases hlast

/-- Each stretch has one barrier. -/
theorem countP_codeOf (ss : List Stretch) :
    (codeOf ss).countP Instruction.isBarrier = ss.length := by
  induction ss with
  | nil => rfl
  | cons s ss ih =>
    have hbody := countP_isBarrier_eq_zero_iff.2 s.free
    rw [codeOf_cons, List.countP_append, hbody, List.countP_cons_of_pos rfl, ih, Nat.zero_add,
      List.length_cons]

theorem countP_codeOf_append {ss : List Stretch} {rest : List Instruction}
    (hrest : ∀ i ∈ rest, i.isBarrier = false) :
    (codeOf ss ++ rest).countP Instruction.isBarrier = ss.length := by
  rw [List.countP_append, countP_codeOf, countP_isBarrier_eq_zero_iff.2 hrest, Nat.add_zero]

end Stretch

/-! ## The blocks of stretches -/

namespace Lane

theorem barriersFrom_append (p : Nat) (xs ys : List Instruction) :
    barriersFrom p (xs ++ ys) = barriersFrom p xs ++ barriersFrom (p + xs.length) ys := by
  induction xs generalizing p with
  | nil => rfl
  | cons x xs ih =>
    have hlength : p + (x :: xs).length = p + 1 + xs.length := by
      rw [List.length_cons]
      omega
    rw [List.cons_append, barriersFrom, barriersFrom, ih, hlength]
    split <;> rfl

/-- There are as many positions of barriers as barriers. -/
theorem length_barriersFrom (p : Nat) (code : List Instruction) :
    (barriersFrom p code).length = code.countP Instruction.isBarrier := by
  induction code generalizing p with
  | nil => rfl
  | cons i code ih =>
    rw [barriersFrom, List.countP_cons]
    split <;> simp only [List.length_cons, ih, Nat.add_zero]

variable {lane : Lane} {before : List Stretch} {s : Stretch} {after : List Instruction}

/-- The barrier of a rank stands at the end of the stretch with that number. -/
theorem getD_barrierPositions
    (h : lane.code = Stretch.codeOf before ++ (s.body ++ .barrier s.id s.members :: after))
    (d : Nat) :
    lane.barrierPositions.getD before.length d =
      (Stretch.codeOf before).length + s.body.length := by
  have hbefore : (barriersFrom 0 (Stretch.codeOf before)).length = before.length := by
    rw [length_barriersFrom, Stretch.countP_codeOf]
  rw [barrierPositions, h, barriersFrom_append, barriersFrom_append, barriersFrom_eq_nil s.free,
    List.nil_append, Nat.zero_add, ← hbefore, List.getD_eq_getElem?_getD,
    List.getElem?_append_right (Nat.le_refl _), Nat.sub_self]
  rfl

/-- The block of a rank starts after the barrier of the stretch before it. -/
theorem first_block {rest : List Instruction} (h : lane.code = Stretch.codeOf before ++ rest) :
    (lane.block before.length).first = (Stretch.codeOf before).length := by
  rcases List.eq_nil_or_concat before with rfl | ⟨init, r, rfl⟩
  · rfl
  · rw [List.concat_eq_append] at h ⊢
    rw [Stretch.codeOf_append_cons] at h
    have hrank : (init ++ [r]).length - 1 = init.length := by simp
    have hpositive : (init ++ [r]).length ≠ 0 := by simp
    have hlength : (Stretch.codeOf init).length + r.body.length + 1 =
        (Stretch.codeOf (init ++ [r])).length := by
      rw [Stretch.codeOf_append, Stretch.codeOf_cons]
      simp only [List.length_append, List.length_cons, Stretch.codeOf, List.flatMap_nil,
        List.length_nil]
      omega
    simp only [block, if_neg hpositive, hrank, getD_barrierPositions h, hlength]

/-- The block of a rank is the stretch with that number. -/
theorem block_eq
    (h : lane.code = Stretch.codeOf before ++ (s.body ++ .barrier s.id s.members :: after)) :
    lane.block before.length = ⟨lane, (Stretch.codeOf before).length,
      (Stretch.codeOf before).length + s.body.length, before.length⟩ := by
  rw [← getD_barrierPositions h lane.code.length, ← first_block h]
  rfl

/-- The block before a barrier is the body of its stretch. -/
theorem block_is
    (h : lane.code = Stretch.codeOf before ++ (s.body ++ .barrier s.id s.members :: after)) :
    (lane.block before.length).Is s.body := by
  have hcode : lane.code = Stretch.codeOf before ++ s.body ++ .barrier s.id s.members :: after := by
    rw [h, List.append_assoc]
  rw [block_eq h]
  refine ⟨⟨_, _, hcode, rfl⟩, rfl, s.free, .inr ⟨s.id, s.members, ?_⟩⟩
  simp [hcode]

end Lane

/-! ## The slowest lanes -/

/-- The ticks of a block whose time is known. -/
def Block.ticks (b : Block) : Nat :=
  match b.timing with
  | .ok (.fixed time) => time.ticks
  | _ => 0

theorem Block.ticks_eq {b : Block} {t : Duration} (h : b.timing = .ok (.fixed t)) :
    b.ticks = t.ticks := by
  simp only [ticks, h]

namespace Alignment

/-- The ticks that the slowest lane takes for its block of a rank. -/
def slowest (lanes : List Lane) (rank : Nat) : Nat :=
  lanes.foldr (fun lane ticks => max (lane.block rank).ticks ticks) 0

/-- The ticks that the slowest lanes take for the ranks below one, one rank after another. -/
def slowestBelow (lanes : List Lane) : Nat → Nat
  | 0 => 0
  | rank + 1 => slowestBelow lanes rank + slowest lanes rank

/-- No lane is slower than the slowest one. -/
theorem ticks_le_slowest {lanes : List Lane} {lane : Lane} (h : lane ∈ lanes) (rank : Nat) :
    (lane.block rank).ticks ≤ slowest lanes rank := by
  induction h with
  | head => exact Nat.le_max_left _ _
  | tail _ _ ih => exact Nat.le_trans ih (Nat.le_max_right _ _)

/-- A lane is held back at the barrier of a rank until the slowest lane is there. -/
def HeldBack (lanes : List Lane) (rank : Nat) (lane : Lane) (replacement : List Instruction) :
    Prop :=
  ∃ t, (lane.block rank).timing = .ok (.fixed t) ∧
    replacement = Decision.padding (.clamp (slowest lanes rank) - t)

end Alignment

/-! ## Walks of aligned lanes -/

/-- What is padded to a limit takes the time of the limit. -/
theorem Duration.add_sub_of_le {time t limit : Duration} (h : t.ticks ≤ limit.ticks) :
    time + t + (limit - t) = time + limit := by
  ext
  simp only [ticks_add, ticks_sub]
  omega

/-- The barrier at the end of a stretch is replaced by the first replacement. -/
theorem replaceBarriers_stretch (replacements : List (List Instruction)) (s : Stretch)
    (code : List Instruction) :
    replaceBarriers replacements (s.body ++ .barrier s.id s.members :: code) =
      s.body ++ (replacements.headD [] ++ replaceBarriers replacements.tail code) := by
  obtain ⟨body, id, members, free⟩ := s
  dsimp only
  induction body with
  | nil => rfl
  | cons i body ih =>
    rw [List.cons_append, replaceBarriers, free i List.mem_cons_self,
      ih fun j hj => free j (List.mem_cons_of_mem i hj)]
    rfl

namespace Walk

variable {b : Block} {q : Nat} {time : Duration} {returns : List Nat} {frames : List RepeatFrame}

/-- A walk passes padding in the time that was padded. -/
theorem run_padding {d : Duration} (h : Stands b.lane.code q (Decision.padding d)) :
    run b ⟨q, time, returns, frames⟩ =
      run b ⟨q + (Decision.padding d).length, time + d, returns, frames⟩ := by
  unfold Decision.padding at h ⊢
  split at h
  · rename_i hzero
    have htime : time + d = time := by
      rw [← Duration.clamp_ticks d, hzero, Duration.add_clamp_zero]
    rw [if_pos hzero, htime]
    rfl
  · rename_i hpositive
    rw [if_neg hpositive]
    exact run_timed h.head fun _ => rfl

section Aligned

variable {lanes : List Lane} {lane : Lane} {before after : List Stretch}

/-- A lane that is held back at a barrier leaves it together with the slowest lane. -/
theorem run_stretch {s : Stretch} {pad : List Instruction} (hlane : lane ∈ lanes)
    (hcode : lane.code = Stretch.codeOf (before ++ s :: after))
    (hheld : Alignment.HeldBack lanes before.length lane pad)
    (hstands : Stands b.lane.code q (s.body ++ pad)) (hlast : q + s.body.length ≤ b.last)
    (hwait : .wait ∈ s.body → time = .zero ∧ frames = []) :
    ∃ returns' frames', run b ⟨q, time, returns, frames⟩ =
      run b ⟨q + s.body.length + pad.length, time + .clamp (Alignment.slowest lanes before.length),
        returns', frames'⟩ := by
  obtain ⟨t, htiming, rfl⟩ := hheld
  have hsplit := (hcode.trans (List.append_nil _).symm).trans (Stretch.codeOf_append_cons ..)
  have hticks := Block.ticks_eq htiming
  have hmeets : t.ticks ≤ (Duration.clamp (Alignment.slowest lanes before.length)).ticks :=
    Nat.le_min.2 ⟨hticks ▸ Alignment.ticks_le_slowest hlane before.length, t.ticks_le⟩
  obtain ⟨returns', frames', hbody⟩ :
      ∃ returns' frames', run b ⟨q, time, returns, frames⟩ =
        run b ⟨q + s.body.length, time + t, returns', frames'⟩ :=
    run_block_placed (Lane.block_is hsplit) hstands.left hlast hwait htiming
  refine ⟨returns', frames', ?_⟩
  rw [hbody, run_padding hstands.right, Duration.add_sub_of_le hmeets]

/-- A lane that is held back at every barrier comes to the start of each stretch together with the
slowest lanes so far. -/
theorem run_aligned (hlane : lane ∈ lanes) (hlast : b.last = b.lane.code.length)
    {replacements : List (List Instruction)} (hcode : lane.code = Stretch.codeOf (before ++ after))
    (hwait : ∀ s ∈ (before ++ after).tail, .wait ∉ s.body)
    (hheld : ∀ k < after.length,
      Alignment.HeldBack lanes (before.length + k) lane (replacements.getD k []))
    (hstands : Stands b.lane.code q (replaceBarriers replacements (Stretch.codeOf after)))
    (hend : q + (replaceBarriers replacements (Stretch.codeOf after)).length = b.last)
    (hframes : before = [] → frames = []) :
    run b ⟨q, .clamp (Alignment.slowestBelow lanes before.length), returns, frames⟩ =
      .ok (.fixed (.clamp (Alignment.slowestBelow lanes (before ++ after).length))) := by
  -- Induction on the stretches that are still to come; those behind are only counted.
  induction after generalizing before replacements q returns frames with
  | nil =>
    have hq : q = b.last := hend
    rw [List.append_nil]
    exact run_end (List.getElem?_eq_none (Nat.le_of_eq (hlast.symm.trans hq.symm))) hq
  | cons s after ih =>
    have hsplit : before ++ s :: after = before ++ [s] ++ after := by
      rw [List.append_assoc, List.singleton_append]
    have hlength : (before ++ [s]).length = before.length + 1 := List.length_append
    have hhead : replacements.headD [] = replacements.getD 0 [] := by cases replacements <;> rfl
    -- Only the first stretch may wait, and it is entered at time zero with no loop open.
    have hfirst : .wait ∈ s.body →
        Duration.clamp (Alignment.slowestBelow lanes before.length) = .zero ∧ frames = [] := by
      intro hmem
      cases before with
      | nil => exact ⟨rfl, hframes rfl⟩
      | cons r before => exact absurd hmem (hwait s (List.mem_append_right _ List.mem_cons_self))
    rw [Stretch.codeOf_cons, replaceBarriers_stretch, hhead, ← List.append_assoc] at hstands hend
    simp only [List.length_append, ← Nat.add_assoc] at hend
    obtain ⟨returns', frames', hstretch⟩ :
        ∃ returns' frames', run b ⟨q, .clamp (Alignment.slowestBelow lanes before.length), returns,
          frames⟩ = run b ⟨q + s.body.length + (replacements.getD 0 []).length,
            .clamp (Alignment.slowestBelow lanes before.length) +
              .clamp (Alignment.slowest lanes before.length), returns', frames'⟩ :=
      run_stretch hlane hcode (hheld 0 (Nat.zero_lt_succ _)) hstands.left (by omega) hfirst
    have hrest := hstands.right
    rw [List.length_append, ← Nat.add_assoc] at hrest
    have hbelow : Alignment.slowestBelow lanes before.length +
        Alignment.slowest lanes before.length =
          Alignment.slowestBelow lanes (before ++ [s]).length := by
      rw [hlength]
      rfl
    rw [hstretch, Duration.clamp_add_clamp, hbelow, hsplit]
    refine ih (hsplit ▸ hcode) (hsplit ▸ hwait) ?_ hrest hend ?_
    · intro k hk
      have htail : replacements.tail.getD k [] = replacements.getD (k + 1) [] := by
        cases replacements <;> rfl
      have hheld' := hheld (k + 1) (Nat.succ_lt_succ hk)
      rw [hlength, htail, Nat.add_assoc, Nat.add_comm 1 k]
      exact hheld'
    · intro hnil
      rw [hnil] at hlength
      cases hlength

end Aligned

end Walk

/-! ## Decisions -/

theorem exists_of_bind_eq_ok {ε α β : Type} {x : Except ε α} {f : α → Except ε β} {y : β}
    (h : x >>= f = .ok y) : ∃ a, x = .ok a ∧ f a = .ok y := by
  cases x with
  | error e => cases h
  | ok a => exact ⟨a, rfl, h⟩

theorem map_eq_of_mapM_eq_ok {ε α β : Type} {f : α → Except ε β} {xs : List α} {ys : List β}
    (h : xs.mapM f = .ok ys) : xs.map f = ys.map .ok := by
  induction xs generalizing ys with
  | nil =>
    cases h
    rfl
  | cons x xs ih =>
    rw [List.mapM_cons] at h
    obtain ⟨y, hy, h⟩ := exists_of_bind_eq_ok h
    obtain ⟨rest, hrest, h⟩ := exists_of_bind_eq_ok h
    cases h
    rw [List.map_cons, List.map_cons, hy, ih hrest]

theorem exists_mapM_eq_ok {ε α β : Type} {f : α → Except ε β} {xs : List α}
    (h : ∀ x ∈ xs, ∃ y, f x = .ok y) : ∃ ys, xs.mapM f = .ok ys := by
  induction xs with
  | nil => exact ⟨[], rfl⟩
  | cons x xs ih =>
    rw [List.forall_mem_cons] at h
    obtain ⟨y, hy⟩ := h.1
    obtain ⟨ys, hys⟩ := ih h.2
    exact ⟨y :: ys, by rw [List.mapM_cons, hy, hys]; rfl⟩

theorem Decision.eq_map_of_fixedTimes? {timings : List Timing} {times : List Duration}
    (h : fixedTimes? timings = some times) : timings = times.map .fixed := by
  induction timings generalizing times with
  | nil =>
    cases h
    rfl
  | cons timing timings ih =>
    cases timing with
    | dynamic => cases h
    | fixed time =>
      obtain ⟨rest, hrest, rfl⟩ := Option.map_eq_some_iff.1 h
      rw [ih hrest, List.map_cons]

namespace Alignment

variable {lanes : List Lane} {lane : Lane} {rank ranks i : Nat} {decision : Decision}
  {all : List Decision}

/-- If all lanes take fixed times, the slowest takes the longest of them. -/
theorem slowest_eq_longest {times : List Duration}
    (h : lanes.map (fun lane => (lane.block rank).timing) = times.map (.ok ∘ .fixed)) :
    slowest lanes rank = (Duration.longest times).ticks := by
  induction lanes generalizing times with
  | nil =>
    cases times with
    | nil => rfl
    | cons t times => cases h
  | cons lane lanes ih =>
    cases times with
    | nil => cases h
    | cons t times =>
      obtain ⟨hhead, htail⟩ := List.cons.inj h
      have hlongest : (Duration.longest (t :: times)).ticks =
          max t.ticks (Duration.longest times).ticks := Duration.ticks_longer t _
      rw [hlongest, ← ih htail, ← Block.ticks_eq hhead]
      rfl

theorem slowest_eq_zero (h : ∀ lane ∈ lanes, (lane.block rank).ticks = 0) :
    slowest lanes rank = 0 := by
  induction lanes with
  | nil => rfl
  | cons lane lanes ih =>
    obtain ⟨hhead, htail⟩ := List.forall_mem_cons.1 h
    show max (lane.block rank).ticks (slowest lanes rank) = 0
    rw [hhead, ih htail, Nat.max_self]

/-- A decision other than to meet at run time comes of known times, and delays each lane by what it
lacks to the longest of them. -/
theorem exists_times_of_decideRank (h : decideRank lanes rank = .ok decision)
    (hdecision : decision ≠ .synchronize) (hi : lanes[i]? = some lane) :
    ∃ times t, times[i]? = some t ∧ (lane.block rank).timing = .ok (.fixed t) ∧
      Duration.clamp (slowest lanes rank) = Duration.longest times ∧
      decision = .pad (times.map (Duration.longest times - ·)) := by
  obtain ⟨timings, htimings, hof⟩ := exists_of_bind_eq_ok h
  obtain rfl : Decision.ofTimings timings = decision := Except.ok.inj hof
  unfold Decision.ofTimings at hdecision ⊢
  cases htimes : Decision.fixedTimes? timings with
  | none =>
    rw [htimes] at hdecision
    exact absurd rfl hdecision
  | some times =>
    have hmap : lanes.map (fun lane => (lane.block rank).timing) = times.map (.ok ∘ .fixed) := by
      rw [map_eq_of_mapM_eq_ok htimings, Decision.eq_map_of_fixedTimes? htimes, List.map_map]
    have hat : some (lane.block rank).timing = times[i]?.map (.ok ∘ .fixed) := by
      rw [← List.getElem?_map, ← hmap, List.getElem?_map, hi]
      rfl
    obtain ⟨t, ht, htiming⟩ := Option.map_eq_some_iff.1 hat.symm
    refine ⟨times, t, ht, htiming.symm, ?_, rfl⟩
    rw [slowest_eq_longest hmap, Duration.clamp_ticks]

/-- A decision other than to meet at run time holds every lane back. -/
theorem heldBack_of_decideRank (h : decideRank lanes rank = .ok decision)
    (hdecision : decision ≠ .synchronize) (hi : lanes[i]? = some lane) :
    HeldBack lanes rank lane (decision.replacement i) := by
  obtain ⟨times, t, ht, htiming, hslowest, rfl⟩ := exists_times_of_decideRank h hdecision hi
  refine ⟨t, htiming, ?_⟩
  rw [hslowest]
  simp only [Decision.replacement, List.getD_eq_getElem?_getD, List.getElem?_map, ht,
    Option.map_some, Option.getD_some]

/-- Where nothing stands before the barriers of a rank, nothing holds the lanes back. -/
theorem heldBack_of_isEmpty (hblocks : ∀ lane ∈ lanes, ∃ piece, (lane.block rank).Is piece)
    (hempty : ∀ lane ∈ lanes, (lane.block rank).isEmpty = true) (hlane : lane ∈ lanes) :
    HeldBack lanes rank lane [] := by
  have hzero : ∀ lane ∈ lanes, (lane.block rank).timing = .ok (.fixed .zero) := by
    intro lane hlane
    obtain ⟨piece, hpiece⟩ := hblocks lane hlane
    have hlast : (lane.block rank).last = (lane.block rank).first :=
      beq_iff_eq.1 (hempty lane hlane)
    have hlength := hpiece.last_eq
    obtain rfl : piece = [] := List.eq_nil_of_length_eq_zero (by omega)
    exact hpiece.timing_of_nil
  have hslowest : slowest lanes rank = 0 :=
    slowest_eq_zero fun lane hlane => Block.ticks_eq (hzero lane hlane)
  refine ⟨.zero, hzero lane hlane, ?_⟩
  rw [hslowest]
  rfl

/-- At the leading ranks the blocks of all lanes are empty. -/
theorem isEmpty_of_lt_leading (h : rank < leading lanes ranks) :
    ∀ lane ∈ lanes, (lane.block rank).isEmpty = true := by
  have hmem := List.getElem_mem h
  rw [(List.takeWhile_prefix _).getElem h, List.getElem_range] at hmem
  have hempty := List.all_eq_true.1 List.all_takeWhile rank hmem
  exact List.all_eq_true.1 hempty

/-- The leading ranks are dropped; the ranks after them are decided from their timings, in order. -/
theorem decision_at (h : decisions lanes ranks = .ok all) (hrank : rank < ranks) :
    ∃ decision, all[rank]? = some decision ∧
      (rank < leading lanes ranks ∧ decision = .elide ∨
        leading lanes ranks ≤ rank ∧ decideRank lanes rank = .ok decision) := by
  obtain ⟨rest, hrest, hall⟩ := exists_of_bind_eq_ok h
  obtain rfl : List.replicate (leading lanes ranks) Decision.elide ++ rest = all :=
    Except.ok.inj hall
  rcases Nat.lt_or_ge rank (leading lanes ranks) with hlt | hge
  · refine ⟨.elide, ?_, .inl ⟨hlt, rfl⟩⟩
    rw [List.getElem?_append_left (by rwa [List.length_replicate]), List.getElem?_replicate,
      if_pos hlt]
  · have hmap := congrArg (·[rank - leading lanes ranks]?) (map_eq_of_mapM_eq_ok hrest)
    have hrange : (List.range' (leading lanes ranks) (ranks - leading lanes ranks))[rank -
        leading lanes ranks]? = some rank := by
      rw [List.getElem?_range' (by omega)]
      congr 1
      omega
    simp only [List.getElem?_map, hrange, Option.map_some] at hmap
    obtain ⟨decision, hat, hdecide⟩ := Option.map_eq_some_iff.1 hmap.symm
    refine ⟨decision, ?_, .inr ⟨hge, hdecide.symm⟩⟩
    rwa [List.getElem?_append_right (by rwa [List.length_replicate]), List.length_replicate]

/-- Where lanes do not meet at run time, every lane is held back. -/
theorem heldBack_of_decision (h : decisions lanes ranks = .ok all)
    (hblocks : ∀ lane ∈ lanes, ∃ piece, (lane.block rank).Is piece) (hrank : rank < ranks)
    (hat : all[rank]? = some decision) (hdecision : decision ≠ .synchronize)
    (hi : lanes[i]? = some lane) : HeldBack lanes rank lane (decision.replacement i) := by
  obtain ⟨d, hd, ⟨hlt, rfl⟩ | ⟨-, hdecide⟩⟩ := decision_at h hrank
  · obtain rfl : decision = .elide := Option.some.inj (hat.symm.trans hd)
    exact heldBack_of_isEmpty hblocks (isEmpty_of_lt_leading hlt) (List.mem_of_getElem? hi)
  · obtain rfl : decision = d := Option.some.inj (hat.symm.trans hd)
    exact heldBack_of_decideRank hdecide hdecision hi

/-- If no lanes meet at run time, every lane is held back at every barrier. -/
theorem heldBack_of_decisions (h : decisions lanes ranks = .ok all)
    (hsynchronized : (report all).synchronized = 0)
    (hblocks : ∀ lane ∈ lanes, ∃ piece, (lane.block rank).Is piece) (hrank : rank < ranks)
    (hi : lanes[i]? = some lane) :
    HeldBack lanes rank lane ((all.map (·.replacement i)).getD rank []) := by
  obtain ⟨decision, hat, -⟩ := decision_at h hrank
  have hdecision : decision ≠ .synchronize := by
    rintro rfl
    exact List.countP_eq_zero.1 hsynchronized _ (List.mem_of_getElem? hat) rfl
  rw [List.getD_eq_getElem?_getD, List.getElem?_map, hat]
  exact heldBack_of_decision h hblocks hrank hat hdecision hi

theorem commonCount?_eq_some (hnone : lanes = [] → ranks = 0)
    (hcount : ∀ lane ∈ lanes, lane.barrierCount = ranks) : commonCount? lanes = some ranks := by
  cases lanes with
  | nil => rw [hnone rfl]; rfl
  | cons lane lanes =>
    obtain ⟨hlane, hrest⟩ := List.forall_mem_cons.1 hcount
    have hall : (lanes.map Lane.barrierCount).all (· == ranks) = true := by
      simpa using hrest
    simp only [commonCount?, List.map_cons, hlane, hall, if_true]

/-- A common count is the count of each lane. -/
theorem barrierCount_of_commonCount? (h : commonCount? lanes = some ranks) :
    ∀ lane ∈ lanes, lane.barrierCount = ranks := by
  cases lanes with
  | nil => simp
  | cons lane lanes =>
    simp only [commonCount?, List.map_cons] at h
    split at h
    · rename_i hall
      cases h
      simpa using hall
    · cases h

/-- Lanes that are aligned had a decision made for each rank. -/
theorem exists_decisions {out : List Lane} {r : Report} (hcommon : commonCount? lanes = some ranks)
    (h : alignLanes lanes = (.ok r, out)) :
    ∃ all, decisions lanes ranks = .ok all ∧ out = apply all lanes ∧ r = report all := by
  simp only [alignLanes, hcommon] at h
  split at h
  · rename_i all hall
    cases h
    exact ⟨all, hall, rfl, rfl⟩
  · cases h

theorem alignLanes_of_decisions (hcommon : commonCount? lanes = some ranks)
    (hall : decisions lanes ranks = .ok all) :
    alignLanes lanes = (.ok (report all), apply all lanes) := by
  simp only [alignLanes, hcommon, hall]

/-- Decisions leave the lanes their numbers. -/
theorem map_id_apply (all : List Decision) (lanes : List Lane) :
    (apply all lanes).map Lane.id = lanes.map Lane.id := by
  refine List.ext_getElem? fun i => ?_
  rw [apply, List.getElem?_map, List.getElem?_mapIdx, List.getElem?_map, Option.map_map]
  rfl

end Alignment

/-! ## Aligned lanes -/

/-- No barrier is replaced by a barrier. -/
theorem Decision.isBarrier_of_mem_replacement {decision : Decision} {lane : Nat} {i : Instruction}
    (h : i ∈ decision.replacement lane) : i.isBarrier = false := by
  cases decision with
  | elide => cases h
  | pad delays =>
    simp only [replacement, padding] at h
    split at h
    · cases h
    · rw [List.mem_singleton.1 h]
      rfl
  | synchronize =>
    rcases List.mem_pair.1 h with rfl | rfl <;> rfl

theorem isBarrier_of_mem_replaceBarriers {replacements : List (List Instruction)}
    {code : List Instruction} {i : Instruction}
    (hfree : ∀ r ∈ replacements, ∀ j ∈ r, j.isBarrier = false)
    (hi : i ∈ replaceBarriers replacements code) : i.isBarrier = false := by
  induction code generalizing replacements with
  | nil => cases hi
  | cons j code ih =>
    rw [replaceBarriers] at hi
    split at hi
    · cases replacements with
      | nil => exact ih hfree hi
      | cons r replacements =>
        rcases List.mem_append.1 hi with hr | hcode
        · exact hfree r List.mem_cons_self i hr
        · exact ih (fun r' hr' => hfree r' (List.mem_cons_of_mem r hr')) hcode
    · rename_i hj
      rcases List.mem_cons.1 hi with rfl | hcode
      · exact Bool.eq_false_iff.2 hj
      · exact ih hfree hcode

/-- Where decisions are applied no barrier is left. -/
theorem Alignment.isBarrier_of_mem_applied {all : List Decision} {lane : Nat}
    {code : List Instruction} :
    ∀ i ∈ replaceBarriers (all.map (·.replacement lane)) code, i.isBarrier = false := by
  intro i hi
  refine isBarrier_of_mem_replaceBarriers ?_ hi
  intro r hr j hj
  obtain ⟨decision, -, rfl⟩ := List.mem_map.1 hr
  exact decision.isBarrier_of_mem_replacement hj

/-- No stretch after the first one waits if the code does not after its first barrier. -/
theorem Stretch.not_wait_of_mem_tail {ss : List Stretch}
    (h : .wait ∉ (codeOf ss).dropWhile (!·.isBarrier)) : ∀ s ∈ ss.tail, .wait ∉ s.body := by
  cases ss with
  | nil => exact fun s hs => absurd hs List.not_mem_nil
  | cons first ss =>
    intro s hs hwait
    refine h ?_
    have hfirst : ∀ i ∈ first.body, (!i.isBarrier) = true := by
      intro i hi
      rw [first.free i hi]
      rfl
    rw [codeOf_cons, List.dropWhile_append_of_pos hfirst]
    refine List.mem_cons_of_mem _ (List.mem_flatMap.2 ⟨s, hs, ?_⟩)
    exact List.mem_append_left _ hwait

/-- A lane that ends at a barrier consists of as many stretches as it has barriers. -/
theorem Lane.exists_stretches (lane : Lane)
    (h : lane.code.getLast?.any Instruction.isBarrier = true) :
    ∃ ss, lane.code = Stretch.codeOf ss ∧ ss.length = lane.barrierCount := by
  have hends : ∀ i ∈ lane.code.getLast?, i.isBarrier = true := by
    intro i hi
    rwa [Option.mem_def.1 hi] at h
  obtain ⟨ss, hcode⟩ := Stretch.exists_codeOf hends
  refine ⟨ss, hcode, ?_⟩
  rw [barrierCount, hcode, Stretch.countP_codeOf]

/-- Every block before a barrier is a stretch of its lane. -/
theorem Stretch.block_is {lane : Lane} {ss : List Stretch} {rest : List Instruction}
    (h : lane.code = codeOf ss ++ rest) {rank : Nat} (hrank : rank < ss.length) :
    (lane.block rank).Is ss[rank].body := by
  have hsplit : ss.take rank ++ ss[rank] :: ss.drop (rank + 1) = ss := by
    rw [List.getElem_cons_drop, List.take_append_drop]
  rw [← hsplit, codeOf_append_cons] at h
  have hblock := Lane.block_is h
  rwa [List.length_take_of_le (Nat.le_of_lt hrank)] at hblock

/-- What comes after the last barrier of a lane is a block, too. -/
theorem Stretch.rest_is {lane : Lane} {ss : List Stretch} {rest : List Instruction}
    (h : lane.code = codeOf ss ++ rest) (hrest : ∀ i ∈ rest, i.isBarrier = false) :
    (lane.block ss.length).Is rest := by
  have hcount : lane.barrierPositions.length = ss.length := by
    rw [Lane.barrierPositions, Lane.length_barriersFrom, h, countP_codeOf_append hrest]
  have hlast : (lane.block ss.length).last = lane.code.length := by
    show lane.barrierPositions.getD ss.length lane.code.length = lane.code.length
    rw [List.getD_eq_getElem?_getD, List.getElem?_eq_none (Nat.le_of_eq hcount)]
    rfl
  have hfirst := Lane.first_block h
  refine ⟨⟨codeOf ss, [], ?_, hfirst.symm⟩, ?_, hrest, .inl ?_⟩
  · rw [List.append_nil]
    exact h
  · rw [hlast, hfirst, h, List.length_append]
  · rw [hlast]
    exact List.getElem?_eq_none (Nat.le_refl _)

/-- The blocks of a lane, up to each of its barriers and after the last one, are pieces of it. -/
theorem Lane.exists_block_is (lane : Lane) {rank : Nat} (hrank : rank ≤ lane.barrierCount) :
    ∃ piece, (lane.block rank).Is piece := by
  obtain ⟨ss, rest, hcode, hrest⟩ := Stretch.exists_codeOf_append lane.code
  rw [barrierCount, hcode, Stretch.countP_codeOf_append hrest] at hrank
  rcases Nat.lt_or_eq_of_le hrank with hlt | rfl
  · exact ⟨_, Stretch.block_is hcode hlt⟩
  · exact ⟨_, Stretch.rest_is hcode hrest⟩

/-- A lane that is held back at each of its barriers takes as long as the slowest lanes. -/
theorem Alignment.timing_of_heldBack {lanes : List Lane} {lane : Lane} {ss : List Stretch}
    {replacements : List (List Instruction)} (hlane : lane ∈ lanes)
    (hcode : lane.code = Stretch.codeOf ss) (hwait : ∀ s ∈ ss.tail, .wait ∉ s.body)
    (hfree : ∀ i ∈ replaceBarriers replacements lane.code, i.isBarrier = false)
    (hheld : ∀ rank < ss.length, HeldBack lanes rank lane (replacements.getD rank [])) :
    (Lane.mk lane.id (replaceBarriers replacements lane.code)).timing =
      .ok (.fixed (.clamp (slowestBelow lanes ss.length))) := by
  rw [Lane.timing, Lane.block_zero hfree]
  have hstands : Stands (replaceBarriers replacements lane.code) 0
      (replaceBarriers replacements (Stretch.codeOf ss)) := hcode ▸ .whole _
  have hend : 0 + (replaceBarriers replacements (Stretch.codeOf ss)).length =
      (replaceBarriers replacements lane.code).length := by rw [hcode, Nat.zero_add]
  have hcode' : lane.code = Stretch.codeOf ([] ++ ss) := hcode
  have hheld' : ∀ rank < ss.length,
      HeldBack lanes (([] : List Stretch).length + rank) lane (replacements.getD rank []) := by
    intro rank hrank
    rw [List.length_nil, Nat.zero_add]
    exact hheld rank hrank
  exact Walk.run_aligned hlane rfl hcode' hwait hheld' hstands hend fun _ => rfl

/-- Aligned lanes take the same time. If lanes with as many barriers as one another end at their
last barrier and do not wait after their first one, and are aligned without meeting at run time,
then each of their blocks takes a known time; the lanes that come out have no barriers, and each
takes as long as the slowest lanes do, one rank after another. -/
theorem alignLanes_aligned {lanes out : List Lane} {report : Report} {ranks : Nat}
    (hcount : ∀ lane ∈ lanes, lane.barrierCount = ranks)
    (hlast : ∀ lane ∈ lanes, lane.code.getLast?.any Instruction.isBarrier = true)
    (hwait : ∀ lane ∈ lanes, .wait ∉ lane.code.dropWhile (!·.isBarrier))
    (h : alignLanes lanes = (.ok report, out)) (hsynchronized : report.synchronized = 0) :
    (∀ lane ∈ lanes, ∀ rank < ranks, ∃ t, (lane.block rank).timing = .ok (.fixed t)) ∧
      out.map Lane.id = lanes.map Lane.id ∧
      ∀ lane ∈ out, lane.barrierCount = 0 ∧
        lane.timing = .ok (.fixed (.clamp (Alignment.slowestBelow lanes ranks))) := by
  by_cases hlanes : lanes = []
  · -- No lanes have no barriers, whatever number `ranks` is.
    subst hlanes
    obtain ⟨all, -, rfl, -⟩ := Alignment.exists_decisions rfl h
    refine ⟨?_, rfl, ?_⟩ <;> exact fun lane hlane => absurd hlane List.not_mem_nil
  · obtain ⟨all, hall, rfl, rfl⟩ :=
      Alignment.exists_decisions (Alignment.commonCount?_eq_some (absurd · hlanes) hcount) h
    have hstretches : ∀ lane ∈ lanes, ∃ ss, lane.code = Stretch.codeOf ss ∧ ss.length = ranks := by
      intro lane hlane
      rw [← hcount lane hlane]
      exact lane.exists_stretches (hlast lane hlane)
    have hheld : ∀ {i : Nat} {lane : Lane}, lanes[i]? = some lane → ∀ rank < ranks,
        Alignment.HeldBack lanes rank lane ((all.map (·.replacement i)).getD rank []) := by
      intro i lane hi rank hrank
      refine Alignment.heldBack_of_decisions hall hsynchronized ?_ hrank hi
      intro lane hlane
      obtain ⟨ss, hcode, hlength⟩ := hstretches lane hlane
      exact ⟨_, Stretch.block_is (hcode.trans (List.append_nil _).symm) (hlength ▸ hrank)⟩
    refine ⟨?_, Alignment.map_id_apply all lanes, ?_⟩
    · intro lane hlane rank hrank
      obtain ⟨i, hi⟩ := List.getElem?_of_mem hlane
      obtain ⟨t, ht, -⟩ := hheld hi rank hrank
      exact ⟨t, ht⟩
    · intro lane' hlane'
      obtain ⟨i, hi'⟩ := List.getElem?_of_mem hlane'
      rw [Alignment.apply, List.getElem?_mapIdx] at hi'
      obtain ⟨lane, hi, rfl⟩ := Option.map_eq_some_iff.1 hi'
      have hlane := List.mem_of_getElem? hi
      obtain ⟨ss, hcode, rfl⟩ := hstretches lane hlane
      have hfree : ∀ j ∈ replaceBarriers (all.map (·.replacement i)) lane.code,
          j.isBarrier = false := Alignment.isBarrier_of_mem_applied
      have hnowait := Stretch.not_wait_of_mem_tail (hcode ▸ hwait lane hlane)
      refine ⟨?_, Alignment.timing_of_heldBack hlane hcode hnowait hfree (hheld hi)⟩
      refine List.countP_eq_zero.2 fun j hj => ?_
      rw [hfree j hj]
      exact Bool.noConfusion

/-- Two lanes that are held back in turn. In its second block, the first lane leaves a loop open. -/
def unevenLanes : List Lane :=
  [⟨⟨0⟩, [.loadRepeat 3, .label ⟨"round"⟩, .pulse "X" (.clamp 10), .repeatFrom ⟨"round"⟩,
      .barrier ⟨0⟩ [], .loadRepeat 2, .goto ⟨"out"⟩, .label ⟨"out"⟩, .barrier ⟨1⟩ []]⟩,
    ⟨⟨1⟩, [.pulse "Y" (.clamp 12), .barrier ⟨0⟩ [], .pulse "Z" (.clamp 7), .barrier ⟨1⟩ []]⟩]

/-- The lanes that come of them. -/
def evenLanes : List Lane :=
  [⟨⟨0⟩, [.loadRepeat 3, .label ⟨"round"⟩, .pulse "X" (.clamp 10), .repeatFrom ⟨"round"⟩,
      .loadRepeat 2, .goto ⟨"out"⟩, .label ⟨"out"⟩, .delay (.clamp 7)]⟩,
    ⟨⟨1⟩, [.pulse "Y" (.clamp 12), .delay (.clamp 18), .pulse "Z" (.clamp 7)]⟩]

theorem alignLanes_unevenLanes :
    alignLanes unevenLanes = (.ok ⟨2, 0, 2, 0, none⟩, evenLanes) ∧
      ∀ lane ∈ evenLanes, lane.barrierCount = 0 ∧ lane.timing = .ok (.fixed (.clamp 37)) := by
  have hdecisions : Alignment.decisions unevenLanes 2 =
      .ok [.pad [.clamp 0, .clamp 18], .pad [.clamp 7, .clamp 0]] := by cbv
  have h : alignLanes unevenLanes = (.ok ⟨2, 0, 2, 0, none⟩, evenLanes) :=
    Alignment.alignLanes_of_decisions rfl hdecisions
  have htotal : Alignment.slowestBelow unevenLanes 2 = 37 := by cbv
  have hcount : ∀ lane ∈ unevenLanes, lane.barrierCount = 2 := by decide
  have haligned := alignLanes_aligned hcount (by decide) (by decide) h rfl
  rw [htotal] at haligned
  exact ⟨h, haligned.2.2⟩

end Lockstep
