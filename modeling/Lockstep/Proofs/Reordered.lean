import Lockstep.Proofs.Joined
import Lockstep.Proofs.Points
import Mathlib.Data.List.Perm.Basic
import Mathlib.Data.List.Sort

/-!
# Lanes in another order

The lanes of a function are a list, but their order does not matter: lanes in another order are
placed, arranged and synchronized to the same lanes in that order.

What the lanes have in common does not depend on their order. The meetings are determined by what is
declared for them (`Roster.Gathers.unique`), so gathering them from the lanes in another order makes
no difference. The number of barriers, the leading ranks and the ranks that depend on runtime values
are the same for lanes that are permuted. What does depend on the position of a lane is the delay in
the place of a barrier, and it goes with the lane (`inPlace_reordered`).
-/

set_option autoImplicit false

namespace Lockstep

/-! ## Lists in another order -/

/-- A list in another order: `order` has, for each new position, the old position of the element
that stands there. -/
def reordered {α : Type} (order : List Nat) (xs : List α) : List α := order.filterMap (xs[·]?)

section Lists

variable {α β : Type} {order : List Nat} {xs : List α}

/-- Lists are mapped in any order alike. -/
theorem reordered_map (order : List Nat) (f : α → β) (xs : List α) :
    reordered order (xs.map f) = (reordered order xs).map f := by
  simp only [reordered, List.map_filterMap, List.getElem?_map]

/-- A list in its own order. -/
theorem reordered_range (xs : List α) : reordered (List.range xs.length) xs = xs := by
  have hmap : (List.range xs.length).map (xs[·]?) = xs.map some := by
    apply List.ext_getElem
    · rw [List.length_map, List.length_range, List.length_map]
    · intro i hi _
      rw [List.length_map, List.length_range] at hi
      rw [List.getElem_map, List.getElem_map, List.getElem_range, List.getElem?_eq_getElem hi]
  have hsome := congrArg (List.filterMap id) hmap
  rwa [List.filterMap_map, List.filterMap_map, Function.id_comp, Function.id_comp,
    List.filterMap_some] at hsome

theorem perm_reordered (h : order.Perm (List.range xs.length)) : (reordered order xs).Perm xs := by
  have hperm : (reordered order xs).Perm (reordered (List.range xs.length) xs) :=
    h.filterMap _
  rwa [reordered_range] at hperm

theorem getElem?_reordered (h : order.Perm (List.range xs.length)) (i : Nat) :
    (reordered order xs)[i]? = order[i]?.bind (xs[·]?) := by
  have hlt : ∀ k ∈ order, k < xs.length := fun k hk => List.mem_range.1 (h.mem_iff.1 hk)
  clear h
  induction order generalizing i with
  | nil => rfl
  | cons k order ih =>
    obtain ⟨hk, hrest⟩ := List.forall_mem_cons.1 hlt
    have hcons : reordered (k :: order) xs = xs[k] :: reordered order xs :=
      List.filterMap_cons_some (List.getElem?_eq_getElem hk)
    rw [hcons]
    cases i with
    | zero => exact (List.getElem?_eq_getElem hk).symm
    | succ i => exact ih i hrest

end Lists

/-! ## Meetings -/

/-- Lists in ascending order are equal if they have the same members. -/
theorem eq_of_ascending {α : Type} {key : α → UInt32} {xs ys : List α}
    (hxs : xs.Pairwise fun a b => key a < key b) (hys : ys.Pairwise fun a b => key a < key b)
    (h : ∀ a, a ∈ xs ↔ a ∈ ys) : xs = ys := by
  have hantisymm : Std.Antisymm fun a b : α => key a < key b :=
    ⟨fun _ _ hab hba => absurd (UInt32.lt_trans hab hba) (UInt32.lt_irrefl _)⟩
  have hirrefl : Std.Irrefl fun a b : α => key a < key b := ⟨fun _ => UInt32.lt_irrefl _⟩
  exact hxs.eq_of_mem_iff hys h

namespace Roster

variable {declared declared' : List BlockPart} {roster roster' : Roster}

/-- A roster depends only on which blocks are declared, with which lanes. -/
theorem Gathers.mem_of_mem (h : roster.Gathers declared) (h' : roster'.Gathers declared')
    (hsame : ∀ d, d ∈ declared ↔ d ∈ declared') {m : Meeting} (hm : m ∈ roster) : m ∈ roster' := by
  obtain ⟨d, hd, hblock⟩ := (h.has_iff m.block).1 ⟨m, hm, rfl⟩
  obtain ⟨m', hm', hblock'⟩ := (h'.has_iff m.block).2 ⟨d, (hsame d).1 hd, hblock⟩
  have hlanes : m'.lanes = m.lanes := by
    apply eq_of_ascending (h'.lanes_ascending m' hm') (h.lanes_ascending m hm)
    intro l
    rw [h'.mem_lanes_iff m' hm', h.mem_lanes_iff m hm, hblock']
    simp only [hsame]
  obtain ⟨block, lanes⟩ := m
  obtain ⟨block', lanes'⟩ := m'
  cases hblock'
  cases hlanes
  exact hm'

/-- The meetings are determined by what is declared for them, in whatever order. -/
theorem Gathers.unique (h : roster.Gathers declared) (h' : roster'.Gathers declared')
    (hsame : ∀ d, d ∈ declared ↔ d ∈ declared') : roster = roster' := by
  apply eq_of_ascending h.ascending h'.ascending
  intro m
  exact ⟨h.mem_of_mem h' hsame, h'.mem_of_mem h fun d => (hsame d).symm⟩

theorem ofLanes_of_perm {lanes lanes' : List (LaneId × List Segment)} (h : lanes.Perm lanes') :
    ofLanes lanes = ofLanes lanes' := by
  apply (gathers_ofLanes lanes).unique (gathers_ofLanes lanes')
  intro d
  simp only [declarations, List.mem_flatMap, h.mem_iff]

end Roster

/-- Lanes are placed in any order alike. -/
theorem placeBarriers_reordered {order : List Nat} (initialWait : Bool)
    {lanes : List (LaneId × List Segment)} (h : order.Perm (List.range lanes.length)) :
    placeBarriers initialWait (reordered order lanes) =
      reordered order (placeBarriers initialWait lanes) := by
  rw [placeBarriers, placeBarriers, reordered_map, Roster.ofLanes_of_perm (perm_reordered h)]

/-! ## What lanes have in common -/

attribute [ext] Report

/-- The report on lanes in another order. -/
def Report.reordered (order : List Nat) (r : Report) : Report :=
  { r with mismatch := r.mismatch.map (Lockstep.reordered order) }

namespace Alignment

section Permuted

variable {lanes lanes' : List Lane} {ranks : Nat} {all all' : List Decision}

theorem commonCount?_eq_some_iff :
    commonCount? lanes = some ranks ↔
      (lanes = [] → ranks = 0) ∧ ∀ lane ∈ lanes, lane.barrierCount = ranks := by
  constructor
  · intro h
    refine ⟨?_, barrierCount_of_commonCount? h⟩
    rintro rfl
    cases h
    rfl
  · rintro ⟨hnone, hcount⟩
    exact commonCount?_eq_some hnone hcount

theorem commonCount?_of_perm (h : lanes.Perm lanes') :
    commonCount? lanes = commonCount? lanes' := by
  apply Option.ext
  intro ranks
  have hnil : lanes = [] ↔ lanes' = [] := by
    rw [← List.length_eq_zero_iff, h.length_eq, List.length_eq_zero_iff]
  simp only [commonCount?_eq_some_iff, hnil, h.mem_iff]

theorem isLeading_of_perm (h : lanes.Perm lanes') : isLeading lanes = isLeading lanes' := by
  funext rank
  simp only [isLeading, h.mem_iff]

theorem isDynamic_of_perm (h : lanes.Perm lanes') : isDynamic lanes = isDynamic lanes' := by
  funext rank
  exact h.any_eq

/-- Whether lanes can be arranged does not depend on their order. -/
theorem exists_decisions_of_perm (h : lanes.Perm lanes')
    (hcount : ∀ lane ∈ lanes, lane.barrierCount = ranks) :
    (∃ all, decisions lanes ranks = .ok all) ↔ ∃ all, decisions lanes' ranks = .ok all := by
  have hcount' : ∀ lane ∈ lanes', lane.barrierCount = ranks :=
    fun lane hlane => hcount lane (h.mem_iff.2 hlane)
  rw [exists_decisions_iff hcount, exists_decisions_iff hcount']
  simp only [bodies, List.mem_map, h.mem_iff]

/-- Nor does the report on what was done. -/
theorem report_of_perm (h : lanes.Perm lanes')
    (hcount : ∀ lane ∈ lanes, lane.barrierCount = ranks)
    (hall : decisions lanes ranks = .ok all) (hall' : decisions lanes' ranks = .ok all') :
    report all = report all' := by
  have hcount' : ∀ lane ∈ lanes', lane.barrierCount = ranks :=
    fun lane hlane => hcount lane (h.mem_iff.2 hlane)
  have hranks : all.length = all'.length := by
    rw [length_decisions hall, length_decisions hall']
  have helided : (report all).elided = (report all').elided := by
    rw [elided_report hall, elided_report hall', isLeading_of_perm h]
  have hsynchronized : (report all).synchronized = (report all').synchronized := by
    rw [synchronized_report hall hcount, synchronized_report hall' hcount', isDynamic_of_perm h]
  have hpadded : (report all).padded = (report all').padded := by
    have hsum := report_sum all
    have hsum' := report_sum all'
    omega
  exact Report.ext hranks helided hpadded hsynchronized rfl

end Permuted

/-! ## What goes with a lane -/

section Reordered

variable {order : List Nat} {lanes : List Lane} {ranks i k : Nat} {all all' : List Decision}

theorem slowestOf_of_perm {pieces pieces' : List (List Instruction)} (h : pieces.Perm pieces') :
    slowestOf pieces = slowestOf pieces' := by
  have hcomm : LeftCommutative fun (piece : List Instruction) ticks =>
      max (Block.alone piece).ticks ticks :=
    ⟨fun _ _ _ => Nat.max_left_comm _ _ _⟩
  exact h.foldr_eq 0

/-- What stands in the place of a barrier is the same in the lane's old position and in its new
one. -/
theorem inPlace_reordered {pieces : List (List Instruction)}
    (h : order.Perm (List.range pieces.length)) (hi : order[i]? = some k) :
    inPlace (reordered order pieces) i = inPlace pieces k := by
  have hperm := perm_reordered h
  have hdynamic : anyDynamic (reordered order pieces) = anyDynamic pieces := hperm.any_eq
  have hpiece : (reordered order pieces).getD i [] = pieces.getD k [] := by
    rw [List.getD_eq_getElem?_getD, getElem?_reordered h, hi, List.getD_eq_getElem?_getD]
    rfl
  rw [inPlace, inPlace, hdynamic, slowestOf_of_perm hperm, hpiece]

/-- Decisions that have for each lane in its new position what others have for it in its old one
give the same lanes in the new order. -/
theorem apply_reordered (h : order.Perm (List.range lanes.length))
    (hall : ∀ i k lane, order[i]? = some k → lanes[k]? = some lane →
      all'.map (·.replacement i) = all.map (·.replacement k)) :
    apply all' (reordered order lanes) = reordered order (apply all lanes) := by
  have hlength : (apply all lanes).length = lanes.length := List.length_mapIdx
  apply List.ext_getElem?
  intro i
  rw [getElem?_reordered (hlength.symm ▸ h), apply, List.getElem?_mapIdx, getElem?_reordered h]
  cases hi : order[i]? with
  | none => rfl
  | some k =>
    simp only [Option.bind_some, apply, List.getElem?_mapIdx]
    cases hk : lanes[k]? with
    | none => rfl
    | some lane => rw [Option.map_some, Option.map_some, hall i k lane hi hk]

/-- Decisions for reordered lanes do to each lane what those for the lanes in their order do. -/
theorem apply_decisions_reordered (h : order.Perm (List.range lanes.length))
    (hcount : ∀ lane ∈ lanes, lane.barrierCount = ranks)
    (hall : decisions lanes ranks = .ok all)
    (hall' : decisions (reordered order lanes) ranks = .ok all') :
    apply all' (reordered order lanes) = reordered order (apply all lanes) := by
  apply apply_reordered h
  intro i k lane hi hk
  have hcount' : ∀ lane ∈ reordered order lanes, lane.barrierCount = ranks :=
    fun lane hlane => hcount lane ((perm_reordered h).mem_iff.1 hlane)
  have hlane : (reordered order lanes)[i]? = some lane := by
    rw [getElem?_reordered h, hi, Option.bind_some, hk]
  rw [map_replacement hall' hcount' hlane, map_replacement hall hcount hk]
  apply List.map_congr_left
  intro rank _
  have hbodies : bodies (reordered order lanes) rank = reordered order (bodies lanes rank) :=
    (reordered_map order _ lanes).symm
  have hlength : (bodies lanes rank).length = lanes.length := List.length_map _
  rw [hbodies, inPlace_reordered (hlength.symm ▸ h) hi]

end Reordered

end Alignment

open Lockstep.Alignment

/-! ## Lanes in any order -/

section Lanes

variable {order : List Nat} {lanes : List Lane}

theorem alignLanes_of_mismatch (h : commonCount? lanes = none) :
    alignLanes lanes = (.ok (.mismatched (lanes.map Lane.barrierCount)), lanes) := by
  rw [alignLanes, h]

theorem mismatched_reordered (order : List Nat) (lanes : List Lane) :
    Report.mismatched ((reordered order lanes).map Lane.barrierCount) =
      (Report.mismatched (lanes.map Lane.barrierCount)).reordered order := by
  rw [← reordered_map]
  rfl

theorem exists_alignLanes_reordered_iff (h : order.Perm (List.range lanes.length)) :
    (∃ report, (alignLanes (reordered order lanes)).1 = .ok report) ↔
      ∃ report, (alignLanes lanes).1 = .ok report := by
  have hperm := perm_reordered h
  cases hcommon : commonCount? lanes with
  | none =>
    have hcommon' := (commonCount?_of_perm hperm).trans hcommon
    exact ⟨fun _ => ⟨_, congrArg Prod.fst (alignLanes_of_mismatch hcommon)⟩,
      fun _ => ⟨_, congrArg Prod.fst (alignLanes_of_mismatch hcommon')⟩⟩
  | some ranks =>
    have hcommon' := (commonCount?_of_perm hperm).trans hcommon
    rw [exists_alignLanes_iff hcommon, exists_alignLanes_iff hcommon']
    exact exists_decisions_of_perm hperm (barrierCount_of_commonCount? hcommon')

/-- Lanes are aligned in any order alike, up to the order in the report. -/
theorem alignLanes_reordered (h : order.Perm (List.range lanes.length)) {out : List Lane}
    {r : Report} (halign : alignLanes lanes = (.ok r, out)) :
    alignLanes (reordered order lanes) = (.ok (r.reordered order), reordered order out) := by
  have hperm := perm_reordered h
  cases hcommon : commonCount? lanes with
  | none =>
    have hcommon' := (commonCount?_of_perm hperm).trans hcommon
    rw [alignLanes_of_mismatch hcommon] at halign
    cases halign
    rw [alignLanes_of_mismatch hcommon', mismatched_reordered]
  | some ranks =>
    have hcommon' := (commonCount?_of_perm hperm).trans hcommon
    have hcount := barrierCount_of_commonCount? hcommon
    have hcount' := barrierCount_of_commonCount? hcommon'
    obtain ⟨all, hall, rfl, rfl⟩ := exists_decisions hcommon halign
    obtain ⟨all', hall'⟩ := (exists_decisions_of_perm hperm hcount').2 ⟨all, hall⟩
    rw [alignLanes_of_decisions hcommon' hall', apply_decisions_reordered h hcount hall hall',
      report_of_perm hperm hcount' hall' hall]
    rfl

theorem synchronizeLanes_reordered (h : order.Perm (List.range lanes.length)) :
    synchronizeLanes (reordered order lanes) =
      ((synchronizeLanes lanes).1.reordered order,
        reordered order (synchronizeLanes lanes).2) := by
  rw [synchronizeLanes, synchronizeLanes, commonCount?_of_perm (perm_reordered h)]
  cases commonCount? lanes with
  | none => exact congrArg (Prod.mk · _) (mismatched_reordered order lanes)
  | some ranks =>
    -- All lanes get the same in the place of each barrier, so their positions do not matter.
    have happly : apply (List.replicate ranks .synchronize) (reordered order lanes) =
        reordered order (apply (List.replicate ranks .synchronize) lanes) := by
      apply apply_reordered h
      intro i k lane _ _
      rw [List.map_replicate, List.map_replicate]
      rfl
    exact congrArg (Prod.mk _) happly

end Lanes

/-- The order of the lanes does not matter. Lanes in another order are placed to the same lanes in
that order. They can be arranged exactly if they can in their own order, and are then arranged to
the same lanes in the new order, with the same report, in which only the numbers of barriers that
differ are in the new order. So it is for lanes that are synchronized at every barrier. -/
theorem lanes_in_any_order (order : List Nat) :
    (∀ (initialWait : Bool) (lanes : List (LaneId × List Segment)),
      order.Perm (List.range lanes.length) →
        placeBarriers initialWait (reordered order lanes) =
          reordered order (placeBarriers initialWait lanes)) ∧
    ∀ lanes : List Lane, order.Perm (List.range lanes.length) →
      ((∃ report, (alignLanes (reordered order lanes)).1 = .ok report) ↔
        ∃ report, (alignLanes lanes).1 = .ok report) ∧
      (∀ out report, alignLanes lanes = (.ok report, out) →
        alignLanes (reordered order lanes) =
          (.ok (report.reordered order), reordered order out)) ∧
      synchronizeLanes (reordered order lanes) =
        ((synchronizeLanes lanes).1.reordered order,
          reordered order (synchronizeLanes lanes).2) := by
  constructor
  · intro initialWait lanes h
    exact placeBarriers_reordered initialWait h
  · intro lanes h
    refine ⟨exists_alignLanes_reordered_iff h, ?_, synchronizeLanes_reordered h⟩
    intro out report halign
    exact alignLanes_reordered h halign

/-- Three lanes of which the second is the slowest up to the second barriers; the third waits for a
measurement before the third. -/
def staggeredLanes : List Lane :=
  [⟨⟨0⟩, [.barrier ⟨0⟩ [], .pulse "X" (.clamp 10), .barrier ⟨1⟩ [], .barrier ⟨2⟩ []]⟩,
    ⟨⟨1⟩, [.barrier ⟨0⟩ [], .pulse "Y" (.clamp 30), .barrier ⟨1⟩ [], .barrier ⟨2⟩ []]⟩,
    ⟨⟨2⟩, [.barrier ⟨0⟩ [], .barrier ⟨1⟩ [], .loadCompare, .barrier ⟨2⟩ []]⟩]

/-- The last lane comes first: each delay goes with its lane. With the first lane left out of the
barriers, the numbers that differ are reported in the new order. -/
theorem staggeredLanes_in_turn :
    [2, 0, 1].Perm (List.range staggeredLanes.length) ∧
      placeBarriers true (reordered [2, 0, 1] sharedLanes) =
        reordered [2, 0, 1] (placeBarriers true sharedLanes) ∧
      alignLanes (reordered [2, 0, 1] staggeredLanes) =
        (.ok ⟨3, 1, 1, 1, none⟩, [⟨⟨2⟩, [.delay (.clamp 30), .loadCompare, .sync, .wait]⟩,
          ⟨⟨0⟩, [.pulse "X" (.clamp 10), .delay (.clamp 20), .sync, .wait]⟩,
          ⟨⟨1⟩, [.pulse "Y" (.clamp 30), .sync, .wait]⟩]) ∧
      (synchronizeLanes (reordered [2, 0, 1] (.empty ⟨0⟩ :: staggeredLanes.tail))).1 =
        ⟨0, 0, 0, 0, some [3, 0, 3]⟩ := by
  have hperm : [2, 0, 1].Perm (List.range staggeredLanes.length) := by decide
  have hdecisions : decisions staggeredLanes 3 =
      .ok [.elide, .pad [.clamp 20, .clamp 0, .clamp 30], .synchronize] := by cbv
  obtain ⟨hplaced, hlanes⟩ := lanes_in_any_order [2, 0, 1]
  obtain ⟨-, hstaggered, -⟩ := hlanes staggeredLanes hperm
  obtain ⟨-, -, hsynchronized⟩ := hlanes (.empty ⟨0⟩ :: staggeredLanes.tail) hperm
  refine ⟨hperm, hplaced true sharedLanes hperm, ?_, ?_⟩
  · exact hstaggered _ _ (alignLanes_of_decisions rfl hdecisions)
  · rw [hsynchronized]
    rfl

end Lockstep
