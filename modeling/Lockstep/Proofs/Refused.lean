import Lockstep.Pipeline
import Lockstep.Proofs.Arrangement

/-!
# Lanes that are refused

Lanes are walked rank by rank and, within a rank, in their order; `turns` lists the walks. Arranging
fails exactly if one of them does, and then with the error of the first that does, however many
blocks before it were found to depend on runtime values. Nothing is done to any lane before all
walks have come to a result, so a pass that fails leaves its stage as it was. Lanes with different
numbers of barriers are not walked at all.
-/

set_option autoImplicit false

namespace Lockstep

/-! ## Failures in a list -/

section Failures

variable {ε α β γ : Type} {e : ε}

theorem bind_eq_error_iff {x : Except ε α} {g : α → Except ε β} :
    x >>= g = .error e ↔ x = .error e ∨ ∃ a, x = .ok a ∧ g a = .error e := by
  cases x with
  | error found =>
    have hbind : (Except.error found >>= g) = .error found := rfl
    simp [hbind]
  | ok a =>
    have hbind : (Except.ok a >>= g) = g a := rfl
    simp [hbind]

/-- What is done with a result does not fail. -/
theorem bind_pure_eq_error_iff {x : Except ε α} {g : α → β} :
    (x >>= fun a => pure (g a)) = .error e ↔ x = .error e := by
  rw [bind_eq_error_iff]
  constructor
  · rintro (h | ⟨a, -, hpure⟩)
    · exact h
    · cases hpure
  · exact .inl

/-- Attempts in a row fail with the first failure among them. -/
theorem mapM_eq_error_iff {f : α → Except ε β} {xs : List α} :
    xs.mapM f = .error e ↔
      ∃ before x after, xs = before ++ x :: after ∧ f x = .error e ∧
        ∀ y ∈ before, ∃ z, f y = .ok z := by
  induction xs with
  | nil =>
    constructor
    · intro h
      cases h
    · rintro ⟨before, x, after, hsplit, -, -⟩
      cases before <;> cases hsplit
  | cons x xs ih =>
    rw [List.mapM_cons, bind_eq_error_iff]
    constructor
    · rintro (hx | ⟨z, hz, hrest⟩)
      · exact ⟨[], x, xs, rfl, hx, fun y hy => absurd hy List.not_mem_nil⟩
      · obtain ⟨before, y, after, rfl, hy, hbefore⟩ := ih.1 (bind_pure_eq_error_iff.1 hrest)
        exact ⟨x :: before, y, after, rfl, hy, List.forall_mem_cons.2 ⟨⟨z, hz⟩, hbefore⟩⟩
    · rintro ⟨before, y, after, hsplit, hy, hbefore⟩
      cases before with
      | nil =>
        cases hsplit
        exact .inl hy
      | cons first before =>
        cases hsplit
        obtain ⟨⟨z, hz⟩, hbefore⟩ := List.forall_mem_cons.1 hbefore
        exact .inr ⟨z, hz, bind_pure_eq_error_iff.2 (ih.2 ⟨before, y, after, rfl, hy, hbefore⟩)⟩

/-- Rows of attempts fail as the attempts do one after another. -/
theorem mapM_flatMap_eq_error_iff {f : β → Except ε γ} {g : α → List β} {xs : List α} :
    (xs.flatMap g).mapM f = .error e ↔ xs.mapM (fun x => (g x).mapM f) = .error e := by
  induction xs with
  | nil =>
    constructor <;> intro h <;> cases h
  | cons x xs ih =>
    rw [List.flatMap_cons, List.mapM_append, List.mapM_cons, bind_eq_error_iff, bind_eq_error_iff]
    simp only [bind_pure_eq_error_iff, ih]

end Failures

namespace Alignment

/-! ## The order of the walks -/

/-- The walks that are made to arrange lanes, each given by its rank and its lane: for every rank
that is not dropped, all lanes in their order. -/
def turns (lanes : List Lane) (ranks : Nat) : List (Nat × Lane) :=
  ((List.range ranks).filter fun rank => !isLeading lanes rank).flatMap fun rank =>
    lanes.map fun lane => (rank, lane)

variable {lanes : List Lane} {lane : Lane} {rank ranks : Nat} {e : TimingError}

theorem mem_turns :
    (rank, lane) ∈ turns lanes ranks ↔
      rank < ranks ∧ isLeading lanes rank = false ∧ lane ∈ lanes := by
  simp only [turns, List.mem_flatMap, List.mem_filter, List.mem_range, List.mem_map,
    Bool.not_eq_true', Prod.mk.injEq]
  constructor
  · rintro ⟨r, ⟨hrank, hleading⟩, l, hlane, rfl, rfl⟩
    exact ⟨hrank, hleading, hlane⟩
  · rintro ⟨hrank, hleading, hlane⟩
    exact ⟨rank, ⟨hrank, hleading⟩, lane, hlane, rfl, rfl⟩

/-- The ranks that are not dropped are those after the leading ones. -/
theorem filter_not_isLeading (lanes : List Lane) (ranks : Nat) :
    ((List.range ranks).filter fun rank => !isLeading lanes rank) =
      List.range' (leading lanes ranks) (ranks - leading lanes ranks) := by
  have hle := leading_le lanes ranks
  have hsplit : List.range ranks = List.range' 0 (leading lanes ranks) ++
      List.range' (leading lanes ranks) (ranks - leading lanes ranks) := by
    have hranks : ranks = leading lanes ranks + (ranks - leading lanes ranks) := by omega
    rw [List.range_eq_range']
    nth_rewrite 1 [hranks]
    rw [← List.range'_append_1, Nat.zero_add]
  have hdropped : ∀ rank ∈ List.range' 0 (leading lanes ranks),
      ¬ (!isLeading lanes rank) = true := by
    intro rank hmem
    have hlt : rank < leading lanes ranks := by
      have := List.mem_range'_1.1 hmem
      omega
    rw [(lt_leading_iff (Nat.lt_of_lt_of_le hlt hle)).1 hlt]
    exact Bool.noConfusion
  have hkept : ∀ rank ∈ List.range' (leading lanes ranks) (ranks - leading lanes ranks),
      (!isLeading lanes rank) = true := by
    intro rank hmem
    have hbounds := List.mem_range'_1.1 hmem
    have hrank : rank < ranks := by omega
    have hnot : ¬ isLeading lanes rank = true := mt (lt_leading_iff hrank).2 (by omega)
    rw [Bool.eq_false_iff.2 hnot]
    rfl
  rw [hsplit, List.filter_append, List.filter_eq_nil_iff.2 hdropped, List.filter_eq_self.2 hkept,
    List.nil_append]

theorem decideRank_eq_error_iff :
    decideRank lanes rank = .error e ↔
      lanes.mapM (fun lane => (lane.block rank).timing) = .error e :=
  bind_pure_eq_error_iff

theorem exists_decideRank_iff :
    (∃ d, decideRank lanes rank = .ok d) ↔
      ∃ timings, lanes.mapM (fun lane => (lane.block rank).timing) = .ok timings := by
  constructor
  · rintro ⟨d, hd⟩
    obtain ⟨timings, htimings, -⟩ := exists_of_bind_eq_ok hd
    exact ⟨timings, htimings⟩
  · rintro ⟨timings, htimings⟩
    exact ⟨.ofTimings timings, by rw [decideRank, htimings]; rfl⟩

/-- Decisions fail as the walks do in turn. -/
theorem decisions_eq_error_iff :
    decisions lanes ranks = .error e ↔
      (turns lanes ranks).mapM (fun turn => (turn.2.block turn.1).timing) = .error e := by
  have hrows : ∀ rank, (lanes.map fun lane => (rank, lane)).mapM
      (fun turn => (turn.2.block turn.1).timing) =
        lanes.mapM fun lane => (lane.block rank).timing := by
    intro rank
    rw [List.mapM_map]
    rfl
  rw [turns, mapM_flatMap_eq_error_iff, filter_not_isLeading]
  simp only [hrows]
  rw [decisions, bind_pure_eq_error_iff, mapM_eq_error_iff, mapM_eq_error_iff]
  simp only [decideRank_eq_error_iff, exists_decideRank_iff]

theorem alignLanes_eq_error_iff (hcount : ∀ lane ∈ lanes, lane.barrierCount = ranks) :
    (alignLanes lanes).1 = .error e ↔
      (turns lanes ranks).mapM (fun turn => (turn.2.block turn.1).timing) = .error e := by
  by_cases hlanes : lanes = []
  · -- Without lanes there are no walks, whatever number `ranks` is.
    subst hlanes
    have hturns : turns [] ranks = [] := by simp [turns]
    rw [hturns]
    constructor <;> intro h <;> cases h
  · have hcommon : commonCount? lanes = some ranks :=
      commonCount?_eq_some (absurd · hlanes) hcount
    rw [← decisions_eq_error_iff]
    simp only [alignLanes, hcommon]
    cases decisions lanes ranks <;> simp

/-- Lanes that are refused are left as they were. -/
theorem eq_of_alignLanes_error (h : (alignLanes lanes).1 = .error e) :
    alignLanes lanes = (.error e, lanes) := by
  unfold alignLanes at h ⊢
  split
  · rename_i hcommon
    rw [hcommon] at h
    cases h
  · rename_i ranks hcommon
    simp only [hcommon] at h
    split
    · rename_i hall
      rw [hall] at h
      cases h
    · rename_i hfails
      rw [hfails] at h
      cases h
      rfl

/-- An error is that of a walk. -/
theorem exists_turn_of_error (hcount : ∀ lane ∈ lanes, lane.barrierCount = ranks)
    (h : (alignLanes lanes).1 = .error e) :
    ∃ rank lane, (rank, lane) ∈ turns lanes ranks ∧ (lane.block rank).timing = .error e := by
  obtain ⟨before, ⟨rank, lane⟩, after, hturns, hfails, -⟩ :=
    mapM_eq_error_iff.1 ((alignLanes_eq_error_iff hcount).1 h)
  refine ⟨rank, lane, ?_, hfails⟩
  rw [hturns]
  exact List.mem_append_right before List.mem_cons_self

/-- Lanes with different numbers of barriers have no number in common. -/
theorem commonCount?_eq_none {a b : Lane} (ha : a ∈ lanes) (hb : b ∈ lanes)
    (hne : a.barrierCount ≠ b.barrierCount) : commonCount? lanes = none := by
  cases hcommon : commonCount? lanes with
  | none => rfl
  | some ranks =>
    have hcount := barrierCount_of_commonCount? hcommon
    exact absurd ((hcount a ha).trans (hcount b hb).symm) hne

/-- A pass that fails leaves its stage as it was. -/
theorem run_align_of_error {stage : Stage}
    (h : (alignLanes stage.schedule.lanes).1 = .error e) :
    Pipeline.run stage [.align] = (some (.timing e), stage) := by
  simp [Pipeline.run, Pass.applies, Pass.run, eq_of_alignLanes_error h]

end Alignment

open Lockstep.Alignment

/-- When arranging fails, and what it leaves behind. Lanes with different numbers of barriers are
left alone and reported with these numbers. Lanes with as many barriers as one another are refused
exactly if the walk of some lane up to its barrier of some rank that is not dropped fails; the error
is that of the first such walk, rank by rank and, within a rank, lane by lane, and the lanes and the
stage are then left as they were. -/
theorem alignLanes_refuses_at_first_failure (lanes : List Lane) :
    (∀ a ∈ lanes, ∀ b ∈ lanes, a.barrierCount ≠ b.barrierCount →
      alignLanes lanes = (.ok ⟨0, 0, 0, 0, some (lanes.map Lane.barrierCount)⟩, lanes)) ∧
    ∀ ranks, (∀ lane ∈ lanes, lane.barrierCount = ranks) →
      ((∃ e, (alignLanes lanes).1 = .error e) ↔
        ∃ rank < ranks, isLeading lanes rank = false ∧
          ∃ lane ∈ lanes, ∃ e, (lane.block rank).timing = .error e) ∧
      ∀ e, ((alignLanes lanes).1 = .error e ↔
          ∃ before rank lane after, turns lanes ranks = before ++ (rank, lane) :: after ∧
            (lane.block rank).timing = .error e ∧
            ∀ turn ∈ before, ∃ t, (turn.2.block turn.1).timing = .ok t) ∧
        ((alignLanes lanes).1 = .error e → (alignLanes lanes).2 = lanes ∧
          ∀ stage : Stage, stage.schedule.lanes = lanes →
            Pipeline.run stage [.align] = (some (.timing e), stage)) := by
  refine ⟨?_, ?_⟩
  · intro a ha b hb hne
    rw [alignLanes, commonCount?_eq_none ha hb hne]
    rfl
  · intro ranks hcount
    have hfirst : ∀ e, (alignLanes lanes).1 = .error e ↔
        ∃ before rank lane after, turns lanes ranks = before ++ (rank, lane) :: after ∧
          (lane.block rank).timing = .error e ∧
          ∀ turn ∈ before, ∃ t, (turn.2.block turn.1).timing = .ok t := by
      intro e
      rw [alignLanes_eq_error_iff hcount, mapM_eq_error_iff]
      simp only [Prod.exists]
    refine ⟨⟨?_, ?_⟩, ?_⟩
    · rintro ⟨e, he⟩
      obtain ⟨rank, lane, hturn, hfails⟩ := exists_turn_of_error hcount he
      obtain ⟨hrank, hleading, hlane⟩ := mem_turns.1 hturn
      exact ⟨rank, hrank, hleading, lane, hlane, e, hfails⟩
    · rintro ⟨rank, hrank, -, lane, hlane, e, hfails⟩
      cases h : (alignLanes lanes).1 with
      | error found => exact ⟨found, rfl⟩
      | ok report =>
        -- Lanes that are arranged have been walked to each of their barriers.
        have hnone : lanes = [] → ranks = 0 := by
          rintro rfl
          cases hlane
        obtain ⟨all, hall, -⟩ :=
          exists_decisions (commonCount?_eq_some hnone hcount) (Prod.ext h rfl)
        obtain ⟨t, ht⟩ := timing_of_decisions hall hcount hrank hlane
        rw [hfails] at ht
        cases ht
    · intro e
      refine ⟨hfirst e, ?_⟩
      intro he
      refine ⟨congrArg Prod.snd (eq_of_alignLanes_error he), ?_⟩
      rintro stage rfl
      exact run_align_of_error he

/-- After its first barrier, this lane waits for a measurement; after the second, it returns from a
call that was not made. -/
def undecidedLane : Lane :=
  ⟨⟨0⟩, [.barrier ⟨0⟩ [], .loadCompare, .barrier ⟨1⟩ [], .ret, .barrier ⟨2⟩ []]⟩

/-- After its first barrier, this lane ends a loop that was not opened. -/
def brokenLane : Lane :=
  ⟨⟨1⟩, [.barrier ⟨0⟩ [], .pulse "X" (.clamp 10), .repeatFrom ⟨"round"⟩, .barrier ⟨1⟩ [],
    .barrier ⟨2⟩ []]⟩

/-- The failure after the first barriers is found, although the lane before it is known to depend on
a measurement, and not the one after the second barriers. With a third lane, which has no barriers,
nothing is walked. -/
theorem alignLanes_brokenLane :
    turns [undecidedLane, brokenLane] 3 =
        [(1, undecidedLane), (1, brokenLane), (2, undecidedLane), (2, brokenLane)] ∧
      undecidedLane.barrierCount = 3 ∧ brokenLane.barrierCount = 3 ∧
      alignLanes [undecidedLane, brokenLane] =
        (.error (.repeatWithoutLoad ⟨1⟩ 2), [undecidedLane, brokenLane]) ∧
      (∀ stage : Stage, stage.schedule.lanes = [undecidedLane, brokenLane] →
        Pipeline.run stage [.align] = (some (.timing (.repeatWithoutLoad ⟨1⟩ 2)), stage)) ∧
      alignLanes [undecidedLane, brokenLane, .empty ⟨2⟩] =
        (.ok ⟨0, 0, 0, 0, some [3, 3, 0]⟩, [undecidedLane, brokenLane, .empty ⟨2⟩]) := by
  have hturns : turns [undecidedLane, brokenLane] 3 =
      [(1, undecidedLane), (1, brokenLane), (2, undecidedLane), (2, brokenLane)] := by decide
  have hcount : ∀ lane ∈ [undecidedLane, brokenLane], lane.barrierCount = 3 := by decide
  have hundecided : (undecidedLane.block 1).timing = .ok .dynamic := Walk.run_of_after (n := 1) rfl
  have hbroken : (brokenLane.block 1).timing = .error (.repeatWithoutLoad ⟨1⟩ 2) :=
    Walk.run_of_after (n := 2) rfl
  obtain ⟨-, hagree⟩ := alignLanes_refuses_at_first_failure [undecidedLane, brokenLane]
  obtain ⟨-, hfails⟩ := hagree 3 hcount
  obtain ⟨hfirst, hstage⟩ := hfails (.repeatWithoutLoad ⟨1⟩ 2)
  have herror : (alignLanes [undecidedLane, brokenLane]).1 =
      .error (.repeatWithoutLoad ⟨1⟩ 2) := by
    refine hfirst.2 ⟨[(1, undecidedLane)], 1, brokenLane, _, hturns, hbroken, ?_⟩
    intro turn hturn
    rw [List.mem_singleton.1 hturn]
    exact ⟨.dynamic, hundecided⟩
  obtain ⟨hdiffer, -⟩ :=
    alignLanes_refuses_at_first_failure [undecidedLane, brokenLane, .empty ⟨2⟩]
  obtain ⟨hlanes, hrun⟩ := hstage herror
  refine ⟨hturns, rfl, rfl, Prod.ext herror hlanes, hrun, ?_⟩
  exact hdiffer undecidedLane (by decide) (.empty ⟨2⟩) (by decide) (by decide)

end Lockstep
