import Lockstep.Proofs.AlignedTiming
import Lockstep.Proofs.LoweredTiming
import Lockstep.Proofs.Points

/-!
# Walks from point to point

The blocks of a placed lane can all be walked if no concurrent block of its statements stands in a
loop, in a choice or in another block. Then the code between two points is lowered code outside of
all loops, and a walk gets through that wherever it stands (`Lowered.passes`): every jump in it
finds its label there. `Walkable` is what such a lane is made of, and `PassesBetween` what becomes
of it when its points are placed.
-/

set_option autoImplicit false

namespace Lockstep

/-! ## Code that is passed -/

/-- Code without barriers that a walk gets through wherever it stands: the walk comes to its end,
unless the time is not known. -/
structure Passes (code : List Instruction) : Prop where
  free : ∀ i ∈ code, i.isBarrier = false
  run : ∀ (b : Block) (p : Nat), b.Holds p (p + code.length) → Stands b.lane.code p code →
    ∀ (e : Duration) (returns : List Nat) (frames : List RepeatFrame),
      Walk.run b ⟨p, e, returns, frames⟩ = .ok .dynamic ∨
        ∃ e' frames', Walk.run b ⟨p, e, returns, frames⟩ =
          Walk.run b ⟨p + code.length, e', returns, frames'⟩

namespace Passes

variable {code others : List Instruction}

theorem nil : Passes [] where
  free := by simp
  run _ _ _ _ e _ frames := .inr ⟨e, frames, rfl⟩

/-- A `wait` starts the time anew, unless a loop is open. -/
theorem wait : Passes [.wait] where
  free := by simp [Instruction.isBarrier]
  run b p _ hstands e returns frames := by
    have hstep := Walk.step_of_getElem? (w := ⟨p, e, returns, frames⟩) hstands.head
    cases frames with
    | nil => exact .inr ⟨.zero, [], Walk.run_of_next hstep⟩
    | cons frame frames => exact .inl (Walk.run_of_halt hstep)

theorem append (h : Passes code) (h' : Passes others) : Passes (code ++ others) where
  free := List.forall_mem_append.2 ⟨h.free, h'.free⟩
  run b p hb hstands e returns frames := by
    rw [List.length_append, ← Nat.add_assoc]
    rcases h.run b p hb.left hstands.left e returns frames with hdynamic | ⟨e₁, frames₁, hrun⟩
    · exact .inl hdynamic
    · rw [hrun]
      exact h'.run b _ hb.right hstands.right e₁ returns frames₁

end Passes

/-- A walk gets through lowered code outside of all loops, if no `break` leaves a nested counted
loop. -/
theorem Lowered.passes {n m : Nat} {body : List Statement} {segments : List Segment}
    (h : Lowered [] n body segments m) {lane : LaneId}
    (hbreaks : breaksApartAll lane false false body = true) :
    Passes (inlineAll lane segments) where
  free i hi :=
    Instruction.isBarrier_of_isVisible (List.filter_eq_self.1 (h.visible_eq lane) i hi)
  run b p hb hstands e returns frames := by
    have hmetered := h.metered lane hb hstands returns e frames
    rcases meterAll_agrees lane body false false hbreaks with
      ⟨-, hmeter⟩ | ⟨ticks, o, left, -, hmeter, -⟩
    · rw [hmeter] at hmetered
      exact .inl hmetered
    · rw [hmeter] at hmetered
      obtain ⟨position, frames', hexit, -, hrun⟩ := hmetered
      rw [hexit.eq_last] at hrun
      exact .inr ⟨_, _, hrun⟩

/-- A block of code that is passed has a timing. -/
theorem Block.Is.timing_of_passes {b : Block} {code : List Instruction} (hb : b.Is code)
    (hapart : LabelsApart b.lane.code) (h : Passes code) : ∃ t, b.timing = .ok t := by
  have hholds : b.Holds b.first (b.first + code.length) :=
    ⟨Nat.le_refl _, Nat.le_of_eq hb.last_eq.symm, hapart⟩
  rcases h.run b b.first hholds hb.stands .zero [] [] with hdynamic | ⟨e, frames, hrun⟩
  · exact ⟨.dynamic, hdynamic⟩
  · exact ⟨.fixed e, hrun.trans (Walk.run_last hb hb.last_eq.symm)⟩

/-! ## From barrier to barrier -/

/-- Code that a walk gets through from each barrier to the next. -/
def PassesBetween (code : List Instruction) : Prop :=
  ∃ (ss : List Stretch) (rest : List Instruction), code = Stretch.codeOf ss ++ rest ∧
    (∀ s ∈ ss, Passes s.body) ∧ Passes rest

theorem Passes.between {code : List Instruction} (h : Passes code) : PassesBetween code :=
  ⟨[], code, rfl, by simp, h⟩

namespace PassesBetween

variable {code others : List Instruction}

theorem barrier (id : BarrierId) (members : List LaneId) :
    PassesBetween [.barrier id members] := by
  refine ⟨[⟨[], id, members, by simp⟩], [], rfl, ?_, .nil⟩
  intro s hs
  rw [List.mem_singleton.1 hs]
  exact .nil

theorem append (h : PassesBetween code) (h' : PassesBetween others) :
    PassesBetween (code ++ others) := by
  obtain ⟨ss, rest, rfl, hss, hrest⟩ := h
  obtain ⟨ss', rest', rfl, hss', hrest'⟩ := h'
  -- What comes after the last barrier of the one goes on up to the first barrier of the other.
  cases ss' with
  | nil => exact ⟨ss, rest ++ rest', by simp [Stretch.codeOf], hss, hrest.append hrest'⟩
  | cons s ss' =>
    rw [List.forall_mem_cons] at hss'
    have hfirst := hrest.append hss'.1
    refine ⟨ss ++ ⟨rest ++ s.body, s.id, s.members, hfirst.free⟩ :: ss', rest', ?_, ?_, hrest'⟩
    · simp [Stretch.codeOf_append, Stretch.codeOf_cons]
    · exact List.forall_mem_append.2 ⟨hss, List.forall_mem_cons.2 ⟨hfirst, hss'.2⟩⟩

/-- Every block of such a lane up to its last barrier has a timing. -/
theorem timing {lane : Lane} (h : PassesBetween lane.code) (hapart : LabelsApart lane.code)
    {rank : Nat} (hrank : rank < lane.barrierCount) :
    ∃ t, (lane.block rank).timing = .ok t := by
  obtain ⟨ss, rest, hcode, hss, hrest⟩ := h
  have hcount := countP_isBarrier_eq_zero_iff.2 hrest.free
  rw [Lane.barrierCount, hcode, List.countP_append, Stretch.countP_codeOf, hcount] at hrank
  exact (Stretch.block_is hcode hrank).timing_of_passes hapart (hss _ (List.getElem_mem hrank))

end PassesBetween

/-! ## Lanes that can be walked -/

/-- A lane of code that is passed and of blocks that are passed, without blocks in them. -/
inductive Walkable (lane : LaneId) : List Segment → Prop
  | nil : Walkable lane []
  | code {first rest : List Segment} (hpasses : Passes (inlineAll lane first))
      (hnone : blockPartsAll (· = lane) first = []) (hrest : Walkable lane rest) :
      Walkable lane (first ++ rest)
  | block {body rest : List Segment} (b : BlockId) (lanes : List LaneId)
      (hpasses : Passes (inlineAll lane body)) (hnone : blockPartsAll (· = lane) body = [])
      (hrest : Walkable lane rest) : Walkable lane (.concurrent b lanes body :: rest)
  | group {inner rest : List Segment} (hinner : Walkable lane inner)
      (hrest : Walkable lane rest) : Walkable lane (.group lane inner :: rest)

namespace Walkable

variable {lane : LaneId} {segments others : List Segment}

theorem append (h : Walkable lane segments) (h' : Walkable lane others) :
    Walkable lane (segments ++ others) := by
  induction h with
  | nil => exact h'
  | code hpasses hnone _ ih =>
    rw [List.append_assoc]
    exact .code hpasses hnone ih
  | block b lanes hpasses hnone _ ih => exact .block b lanes hpasses hnone ih
  | group hinner _ _ ih => exact .group hinner ih

/-- Groups of other lanes do not matter. -/
theorem other_group {owner : LaneId} (howner : owner ≠ lane) (inner : List Segment)
    (h : Walkable lane segments) : Walkable lane (.group owner inner :: segments) := by
  have hinline : inlineAll lane [.group owner inner] = [] := by
    rw [inlineAll_cons, inline_other_group lane howner, inlineAll_nil]
    rfl
  have hparts : blockPartsAll (· = lane) [.group owner inner] = [] := by
    rw [blockPartsAll_cons, Segment.blockParts, if_neg (by simp [howner]), blockPartsAll_nil]
    rfl
  exact .code (hinline ▸ .nil) hparts h

/-- No block stands in another one. -/
theorem flat (h : Walkable lane segments) :
    ∀ part ∈ blockPartsAll (· = lane) segments, blockPartsAll (· = lane) part.body = [] := by
  induction h with
  | nil => simp
  | code _ hnone _ ih =>
    rw [blockPartsAll_append, hnone]
    exact ih
  | block b lanes _ hnone _ ih =>
    rw [blockPartsAll_cons, Segment.blockParts, hnone]
    exact List.forall_mem_cons.2 ⟨hnone, ih⟩
  | group _ _ ihinner ih =>
    rw [blockPartsAll_cons, Segment.blockParts, if_pos (decide_eq_true rfl)]
    exact List.forall_mem_append.2 ⟨ihinner, ih⟩

end Walkable

namespace Placement

variable {p : Placement}

theorem emitAll_append (p : Placement) (next : Nat) (first others : List Segment) :
    (p.emitAll next (first ++ others)).1 = (p.emitAll next first).1 ++
      (p.emitAll (p.emitAll next first).2 others).1 := by
  induction first generalizing next with
  | nil => rw [List.nil_append, emitAll, List.nil_append]
  | cons s first ih =>
    rw [List.cons_append, emitAll, emitAll]
    simp only [ih, List.append_assoc]

theorem passesBetween_startPoint (p : Placement) (k : Nat) : PassesBetween [p.startPoint k] := by
  unfold startPoint
  split
  · exact Passes.wait.between
  · exact .barrier _ _

theorem passesBetween_endPoint (p : Placement) (k : Nat) : PassesBetween [p.endPoint k] :=
  .barrier _ _

theorem passesBetween_idle (p : Placement) (next stop : Nat) :
    PassesBetween (p.idle next stop) := by
  unfold idle
  induction List.range' next (stop - next) with
  | nil => exact Passes.nil.between
  | cons k ks ih =>
    exact ((p.passesBetween_startPoint k).append (p.passesBetween_endPoint k)).append ih

/-- Points make stretches of a lane that can be walked. -/
theorem passesBetween_emitAll {segments : List Segment} (h : Walkable p.lane segments)
    (next : Nat) : PassesBetween (p.emitAll next segments).1 := by
  induction h generalizing next with
  | nil =>
    rw [emitAll]
    exact Passes.nil.between
  | code hpasses hnone _ ih =>
    rw [emitAll_append, emitAll_of_blockParts_nil p _ next hnone]
    exact hpasses.between.append (ih next)
  | @block body rest b lanes hpasses hnone _ ih =>
    rw [emitAll]
    refine PassesBetween.append ?_ (ih _)
    rw [emit]
    cases p.roster.position? b with
    | none => exact Passes.nil.between
    | some k =>
      simp only [emitAll_of_blockParts_nil p body _ hnone]
      refine (PassesBetween.append ?_ ?_).append (p.passesBetween_endPoint k)
      · exact p.passesBetween_idle next k
      · exact (p.passesBetween_startPoint k).append hpasses.between
  | group _ _ ihinner ih =>
    rw [emitAll]
    refine PassesBetween.append ?_ (ih _)
    rw [emit, if_pos rfl]
    exact ihinner next

theorem passesBetween_code {segments : List Segment} (h : Walkable p.lane segments) :
    PassesBetween (p.code segments) :=
  (passesBetween_emitAll h 0).append (p.passesBetween_idle _ _)

end Placement

/-! ## Blocks of statements -/

mutual

/-- The concurrent blocks of a statement, in the order of the lowered code; `keeps` says whose
groups count. -/
def Statement.blockIds (keeps : LaneId → Bool) : Statement → List BlockId
  | .call .. | .assign .. | .breakLoop _ | .continueLoop _ => []
  | .whileDo _ _ body => blockIdsAll keeps body
  | .ifElse _ _ body orelse => blockIdsAll keeps orelse ++ blockIdsAll keeps body
  | .repeatTimes _ _ body => blockIdsAll keeps body
  | .sequential _ body => blockIdsAll keeps body
  | .concurrent _ block _ body => block :: blockIdsAll keeps body
  | .grouped _ groups => blockIdsAll keeps groups
  | .group _ owner body => if keeps owner then blockIdsAll keeps body else []

/-- The concurrent blocks of statements in a row. -/
def blockIdsAll (keeps : LaneId → Bool) : List Statement → List BlockId
  | [] => []
  | st :: rest => st.blockIds keeps ++ blockIdsAll keeps rest

end

mutual

/-- No concurrent block stands in a loop, in a choice or in another block. -/
def Statement.blocksApart : Statement → Bool
  | .call .. | .assign .. | .breakLoop _ | .continueLoop _ => true
  | .whileDo _ _ body => (blockIdsAll (fun _ => true) body).isEmpty
  | .ifElse _ _ body orelse =>
    (blockIdsAll (fun _ => true) body).isEmpty && (blockIdsAll (fun _ => true) orelse).isEmpty
  | .repeatTimes _ _ body => (blockIdsAll (fun _ => true) body).isEmpty
  | .sequential _ body => blocksApartAll body
  | .concurrent _ _ _ body => (blockIdsAll (fun _ => true) body).isEmpty
  | .grouped _ groups => blocksApartAll groups
  | .group _ _ body => blocksApartAll body

/-- No concurrent block of statements in a row stands in a loop, in a choice or in another block. -/
def blocksApartAll : List Statement → Bool
  | [] => true
  | st :: rest => st.blocksApart && blocksApartAll rest

end

section Lowered

variable (keeps : LaneId → Bool)

theorem blockPartsAll_callShape (c : Call) (purpose : Purpose) :
    blockPartsAll keeps (callShape c purpose) = [] := by
  cases purpose <;> simp [callShape]

theorem blockPartsAll_assignShape (target : String) (value : Expr) (purpose : Purpose) :
    blockPartsAll keeps (assignShape target value purpose) = [] := by
  cases purpose with
  | plain | channelCreation | runtime => simp [assignShape]
  | measurement => cases value <;> simp [assignShape]

/-- Lowering keeps the concurrent blocks. -/
theorem Lowered.block_blockPartsAll {loops : List LoopLabels} {n m : Nat} {body : List Statement}
    {segments : List Segment} (h : Lowered loops n body segments m) :
    (blockPartsAll keeps segments).map BlockPart.block = blockIdsAll keeps body := by
  induction h with
  | nil loops n => simp [blockIdsAll]
  | call loc c purpose _ ih =>
    simp [blockIdsAll, Statement.blockIds, blockPartsAll_callShape, ih]
  | assign loc target value purpose _ ih =>
    simp [blockIdsAll, Statement.blockIds, blockPartsAll_assignShape, ih]
  | whileDo _ _ _ ihbody ihrest =>
    simp [blockIdsAll, Statement.blockIds, whileShape, ihbody, ihrest]
  | ifElse _ _ _ _ ihelse ihbody ihrest =>
    simp [blockIdsAll, Statement.blockIds, ifShape, ihelse, ihbody, ihrest]
  | breakLoop loc _ ih => simp [blockIdsAll, Statement.blockIds, ih]
  | continueLoop loc _ ih => simp [blockIdsAll, Statement.blockIds, ih]
  | repeatTimes loc count _ _ ihbody ihrest =>
    simp [blockIdsAll, Statement.blockIds, repeatShape, ihbody, ihrest]
  | sequential loc _ _ ihbody ihrest => simp [blockIdsAll, Statement.blockIds, ihbody, ihrest]
  | concurrent loc block lanes _ _ ihbody ihrest =>
    simp [blockIdsAll, Statement.blockIds, Segment.blockParts, ihbody, ihrest]
  | noGroups loc _ ih => simp [blockIdsAll, Statement.blockIds, ih]
  | groups loc place owner _ _ ihbody ihrest =>
    rw [blockIdsAll, Statement.blockIds] at ihrest
    rw [blockPartsAll_cons, List.map_append, ihrest, Segment.blockParts, blockIdsAll,
      Statement.blockIds, blockIdsAll, Statement.blockIds]
    split <;> simp [ihbody]
  | group loc owner _ _ ihbody ihrest =>
    rw [blockPartsAll_cons, List.map_append, ihrest, Segment.blockParts, blockIdsAll,
      Statement.blockIds]
    split <;> simp [ihbody]

end Lowered

/-- Statements without blocks are lowered to segments without blocks. -/
theorem Lowered.blockPartsAll_eq_nil {loops : List LoopLabels} {n m : Nat} {body : List Statement}
    {segments : List Segment} (h : Lowered loops n body segments m)
    (hnone : (blockIdsAll (fun _ => true) body).isEmpty = true) (keeps : LaneId → Bool) :
    blockPartsAll keeps segments = [] := by
  have hall := h.block_blockPartsAll fun _ => true
  rw [List.isEmpty_iff.1 hnone] at hall
  exact List.subset_nil.1 (List.map_eq_nil_iff.1 hall ▸ blockPartsAll_subset keeps segments)

/-- A statement without blocks before others. -/
theorem Lowered.walkable_cons {n k : Nat} {st : Statement} {first others : List Segment}
    {lane : LaneId} (h : Lowered [] n [st] (first ++ []) k)
    (hnone : (st.blockIds fun _ => true) = []) (hbreaks : st.breaksApart lane false false = true)
    (hrest : Walkable lane others) : Walkable lane (first ++ others) := by
  rw [List.append_nil] at h
  refine .code (h.passes ?_) (h.blockPartsAll_eq_nil ?_ _) hrest
  · rw [breaksApartAll, hbreaks, breaksApartAll, Bool.true_and]
  · rw [blockIdsAll, hnone, blockIdsAll]
    rfl

/-- Lanes whose blocks are apart can be walked. -/
theorem Lowered.walkable {n m : Nat} {body : List Statement} {segments : List Segment}
    (h : Lowered [] n body segments m) {lane : LaneId} (hblocks : blocksApartAll body = true)
    (hbreaks : breaksApartAll lane false false body = true) : Walkable lane segments := by
  -- Blocks stand outside of all loops, so only statements there are taken apart.
  generalize hloops : ([] : List LoopLabels) = loops at h
  induction h with
  | nil => exact .nil
  | call loc c purpose hrest ih =>
    subst hloops
    exact Lowered.walkable_cons (.call loc c purpose (.nil [] 0)) rfl rfl (ih hblocks hbreaks rfl)
  | assign loc target value purpose hrest ih =>
    subst hloops
    exact Lowered.walkable_cons (.assign loc target value purpose (.nil [] 0)) rfl rfl
      (ih hblocks hbreaks rfl)
  | whileDo hexit hbody hrest _ ihrest =>
    subst hloops
    obtain ⟨hblock, hblocks⟩ := Bool.and_eq_true_iff.1 hblocks
    obtain ⟨hbreak, hbreaks⟩ := Bool.and_eq_true_iff.1 hbreaks
    exact Lowered.walkable_cons (.whileDo hexit hbody (.nil _ _)) (List.isEmpty_iff.1 hblock) hbreak
      (ihrest hblocks hbreaks rfl)
  | ifElse htest helse hbody hrest _ _ ihrest =>
    subst hloops
    obtain ⟨hblock, hblocks⟩ := Bool.and_eq_true_iff.1 hblocks
    obtain ⟨hbreak, hbreaks⟩ := Bool.and_eq_true_iff.1 hbreaks
    obtain ⟨hthen, hother⟩ := Bool.and_eq_true_iff.1 hblock
    refine Lowered.walkable_cons (.ifElse htest helse hbody (.nil _ _)) ?_ hbreak
      (ihrest hblocks hbreaks rfl)
    rw [Statement.blockIds, List.isEmpty_iff.1 hthen, List.isEmpty_iff.1 hother]
    rfl
  | breakLoop loc _ _ => cases hloops
  | continueLoop loc _ _ => cases hloops
  | repeatTimes loc count hbody hrest _ ihrest =>
    subst hloops
    obtain ⟨hblock, hblocks⟩ := Bool.and_eq_true_iff.1 hblocks
    obtain ⟨hbreak, hbreaks⟩ := Bool.and_eq_true_iff.1 hbreaks
    exact Lowered.walkable_cons (.repeatTimes loc count hbody (.nil _ _))
      (List.isEmpty_iff.1 hblock) hbreak (ihrest hblocks hbreaks rfl)
  | sequential loc _ _ ihbody ihrest =>
    obtain ⟨hblock, hblocks⟩ := Bool.and_eq_true_iff.1 hblocks
    obtain ⟨hbreak, hbreaks⟩ := Bool.and_eq_true_iff.1 hbreaks
    exact (ihbody hblock hbreak hloops).append (ihrest hblocks hbreaks hloops)
  | concurrent loc block lanes hbody _ _ ihrest =>
    obtain ⟨hblock, hblocks⟩ := Bool.and_eq_true_iff.1 hblocks
    obtain ⟨hbreak, hbreaks⟩ := Bool.and_eq_true_iff.1 hbreaks
    have hrest := ihrest hblocks hbreaks hloops
    subst hloops
    exact .block block lanes (hbody.passes hbreak) (hbody.blockPartsAll_eq_nil hblock _) hrest
  | noGroups loc _ ih => exact ih hblocks hbreaks hloops
  | groups loc place owner _ _ ihbody ihrest =>
    obtain ⟨hblock, hblocks⟩ := Bool.and_eq_true_iff.1 hblocks
    obtain ⟨hown, hmembers⟩ := Bool.and_eq_true_iff.1 hblock
    obtain ⟨hbreak, hbreaks⟩ := Bool.and_eq_true_iff.1 hbreaks
    obtain ⟨hbreak, hbreaks'⟩ := Bool.and_eq_true_iff.1 hbreak
    have hrest := ihrest (Bool.and_eq_true_iff.2 ⟨hmembers, hblocks⟩)
      (Bool.and_eq_true_iff.2 ⟨hbreaks', hbreaks⟩) hloops
    by_cases howner : owner = lane
    · subst howner
      exact .group (ihbody hown (by simpa [Statement.breaksApart] using hbreak) hloops) hrest
    · exact hrest.other_group howner _
  | group loc owner _ _ ihbody ihrest =>
    obtain ⟨hblock, hblocks⟩ := Bool.and_eq_true_iff.1 hblocks
    obtain ⟨hbreak, hbreaks⟩ := Bool.and_eq_true_iff.1 hbreaks
    have hrest := ihrest hblocks hbreaks hloops
    by_cases howner : owner = lane
    · subst howner
      exact .group (ihbody hblock (by simpa [Statement.breaksApart] using hbreak) hloops) hrest
    · exact hrest.other_group howner _

end Lockstep
