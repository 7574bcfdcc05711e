import Lockstep.Compiler
import Lockstep.Proofs.Simulation
import Lockstep.Proofs.Spliced
import Mathlib.Data.List.Forall2

/-!
# Compiled lanes

What a compiled lane does. After lowering, a lane goes through passes that place points, delay the
lane or let it meet others. All of that is silent: lanes keep their number and the visible part of
their code (`visibleLanes`). So a compiled lane completes with exactly the traces that its
statements have in the counted discipline (`lane_of_compileFunction`).

The structured discipline is another matter. A `break` out of a counted loop inside another one
leaves a counter behind, which the loop around it takes for its own
(`leftover_counter_ends_outer_loop`).
-/

set_option autoImplicit false

namespace Lockstep

@[simp]
theorem visible_nil : visible [] = [] := rfl

@[simp]
theorem visible_append (a b : List Instruction) : visible (a ++ b) = visible a ++ visible b :=
  List.filter_append ..

theorem visible_cons_silent {i : Instruction} (h : i.isVisible = false) (code : List Instruction) :
    visible (i :: code) = visible code :=
  List.filter_cons_of_neg (by simp [h])

/-! ## Lowered code is visible -/

section Lowered

variable (lane : LaneId)

theorem visible_callShape (c : Call) (purpose : Purpose) :
    visible (inlineAll lane (callShape c purpose)) = inlineAll lane (callShape c purpose) := by
  cases purpose with
  | channelCreation => simp [callShape]
  | plain | measurement | runtime => simp only [callShape, inlineAll_ops]; rfl

theorem visible_assignShape (target : String) (value : Expr) (purpose : Purpose) :
    visible (inlineAll lane (assignShape target value purpose)) =
      inlineAll lane (assignShape target value purpose) := by
  cases purpose with
  | plain | channelCreation => simp [assignShape]
  | runtime => simp only [assignShape, inlineAll_ops]; rfl
  | measurement => cases value <;> simp only [assignShape, inlineAll_ops] <;> rfl

/-- A group is all visible if its body is. -/
theorem visible_group {owner : LaneId} {inner : List Segment}
    (h : visible (inlineAll lane inner) = inlineAll lane inner) :
    visible ((Segment.group owner inner).inline lane) =
      (Segment.group owner inner).inline lane := by
  by_cases howner : owner = lane
  · subst howner
    rwa [inline_own_group]
  · rw [inline_other_group lane howner, visible_nil]

/-- Lowering makes no instruction that only takes time. -/
theorem Lowered.visible_eq {loops : List LoopLabels} {n m : Nat} {body : List Statement}
    {segments : List Segment} (h : Lowered loops n body segments m) :
    visible (inlineAll lane segments) = inlineAll lane segments := by
  induction h with
  | nil loops n => simp
  | call loc c purpose _ ih => rw [inlineAll_append, visible_append, visible_callShape, ih]
  | assign loc target value purpose _ ih =>
    rw [inlineAll_append, visible_append, visible_assignShape, ih]
  | @whileDo loops n k m body rest inner others loc test exit _ _ _ ihbody ihrest =>
    have hhead : visible (.label (.indexed "while" n) :: exit.code (.indexed "endwhile" n)) =
        .label (.indexed "while" n) :: exit.code (.indexed "endwhile" n) := by
      cases exit <;> rfl
    simp only [whileShape, inlineAll_append, inlineAll_ops, visible_append, ihbody, ihrest, hhead]
    rfl
  | ifElse _ _ _ _ ihelse ihbody ihrest =>
    simp only [ifShape, inlineAll_append, inlineAll_ops, visible_append, ihelse, ihbody, ihrest]
    rfl
  | breakLoop loc _ ih =>
    rw [inlineAll_append, visible_append, ih, inlineAll_ops]
    rfl
  | continueLoop loc _ ih =>
    rw [inlineAll_append, visible_append, ih, inlineAll_ops]
    rfl
  | repeatTimes loc count _ _ ihbody ihrest =>
    simp only [repeatShape, inlineAll_append, inlineAll_ops, visible_append, ihbody, ihrest]
    rfl
  | sequential loc _ _ ihbody ihrest => rw [inlineAll_append, visible_append, ihbody, ihrest]
  | concurrent loc block lanes _ _ ihbody ihrest =>
    rw [inlineAll_cons, inline_concurrent, visible_append, ihbody, ihrest]
  | noGroups loc _ ih => exact ih
  | groups loc place owner _ _ ihbody ihrest =>
    rw [inlineAll_cons, visible_append, visible_group lane ihbody, ihrest]
  | group loc owner _ _ ihbody ihrest =>
    rw [inlineAll_cons, visible_append, visible_group lane ihbody, ihrest]

end Lowered

/-! ## Points are silent -/

/-- Points are not visible. -/
theorem Instruction.point?_of_isVisible {i : Instruction} (h : i.isVisible = true) :
    i.point? = none := by
  cases i with
  | wait | barrier => cases h
  | _ => rfl

/-- A lane with its points has the visible code of its segments. -/
theorem Placement.visible_code (p : Placement) {segments : List Segment}
    (h : ∀ d ∈ blockPartsAll (· = p.lane) segments, p.roster.Has d.block) :
    visible (p.code segments) = visible (inlineAll p.lane segments) :=
  p.filter_code (fun _ => Instruction.point?_of_isVisible) h

/-! ## Passes are silent -/

/-- The number and the visible code of each lane. -/
def visibleLanes (lanes : List Lane) : List (LaneId × List Instruction) :=
  lanes.map fun lane => (lane.id, visible lane.code)

/-- Of the placed lanes, the code of their segments is visible. -/
theorem visibleLanes_placeBarriers (initialWait : Bool) (lanes : List (LaneId × List Segment)) :
    visibleLanes (placeBarriers initialWait lanes) =
      lanes.map fun lane => (lane.1, visible (inlineAll lane.1 lane.2)) := by
  unfold visibleLanes placeBarriers
  rw [List.map_map]
  refine List.map_congr_left ?_
  intro lane hlane
  exact congrArg (Prod.mk lane.1) (Placement.visible_code _ (Roster.ofLanes_has hlane _))

/-- If barriers are replaced by what is not visible, the visible code stays the same. -/
theorem visible_replaceBarriers {replacements : List (List Instruction)}
    (h : ∀ r ∈ replacements, visible r = []) (code : List Instruction) :
    visible (replaceBarriers replacements code) = visible code := by
  induction code generalizing replacements with
  | nil => rfl
  | cons i code ih =>
    unfold replaceBarriers
    by_cases hi : i.isBarrier = true
    · have hsilent : i.isVisible = false := by
        rw [Bool.eq_false_iff]
        intro hvisible
        rw [Instruction.isBarrier_of_isVisible hvisible] at hi
        cases hi
      have hhead : visible (replacements.headD []) = [] := by
        cases replacements with
        | nil => rfl
        | cons r rs => exact h r List.mem_cons_self
      rw [if_pos hi, visible_append, hhead, visible_cons_silent hsilent, List.nil_append,
        ih fun r hr => h r (List.mem_of_mem_tail hr)]
    · rw [if_neg hi]
      show (i :: replaceBarriers replacements code).filter _ = (i :: code).filter _
      rw [List.filter_cons, List.filter_cons]
      exact congrArg (fun rest => if i.isVisible then i :: rest else rest) (ih h)

/-- No decision puts anything visible in the place of a barrier. -/
theorem Decision.visible_replacement (d : Decision) (lane : Nat) :
    visible (d.replacement lane) = [] := by
  cases d with
  | elide => rfl
  | pad delays =>
    show visible (padding _) = []
    unfold padding
    split <;> rfl
  | synchronize => rfl

/-- Decisions change nothing that is visible. -/
theorem visibleLanes_apply (decisions : List Decision) (lanes : List Lane) :
    visibleLanes (Alignment.apply decisions lanes) = visibleLanes lanes := by
  unfold visibleLanes Alignment.apply
  refine List.ext_getElem? ?_
  intro i
  rw [List.getElem?_map, List.getElem?_mapIdx, List.getElem?_map, Option.map_map]
  refine Option.map_congr ?_
  intro lane _
  refine congrArg (Prod.mk _) (visible_replaceBarriers ?_ _)
  intro r hr
  obtain ⟨d, -, rfl⟩ := List.mem_map.1 hr
  exact d.visible_replacement i

/-- Arranging changes nothing visible, whether or not it is refused. -/
theorem visibleLanes_alignLanes (lanes : List Lane) :
    visibleLanes (alignLanes lanes).2 = visibleLanes lanes := by
  unfold alignLanes
  split
  · rfl
  · split
    · exact visibleLanes_apply _ lanes
    · rfl

/-- Nor does synchronization at level 0. -/
theorem visibleLanes_synchronizeLanes (lanes : List Lane) :
    visibleLanes (synchronizeLanes lanes).2 = visibleLanes lanes := by
  unfold synchronizeLanes
  split
  · rfl
  · exact visibleLanes_apply _ lanes

/-- No pass changes anything visible, also when it refuses. -/
theorem Pass.visibleLanes_run (pass : Pass) (stage : Stage) :
    visibleLanes (pass.run stage).2.schedule.lanes = visibleLanes stage.schedule.lanes := by
  cases pass with
  | align =>
    have hlanes := visibleLanes_alignLanes stage.schedule.lanes
    rw [run]
    split <;> (rename_i halign; rwa [halign] at hlanes)
  | synchronize => exact visibleLanes_synchronizeLanes stage.schedule.lanes
  | verifyBarriers => rfl
  | verifyLabels =>
    rw [run]
    split <;> rfl

/-- Nor does a pipeline, whichever way it ends. -/
theorem Pipeline.visibleLanes_run (passes : Pipeline) (stage : Stage) :
    visibleLanes (passes.run stage).2.schedule.lanes = visibleLanes stage.schedule.lanes := by
  induction passes generalizing stage with
  | nil => rfl
  | cons pass rest ih =>
    have hpass := pass.visibleLanes_run stage
    rw [run]
    split
    · split
      · rename_i stage' hrun
        rw [hrun] at hpass
        exact (ih stage').trans hpass
      · rename_i hrun
        rwa [hrun] at hpass
    · exact ih stage

namespace Schedule

/-- A lane with the number of another is refused and changes nothing. -/
theorem addLane_of_mem {s : Schedule} {lane : Lane} (h : lane.id ∈ s.lanes.map Lane.id) :
    s.addLane lane = (.error (.duplicateLane lane.id (some s.name)), s) := by
  rw [addLane, if_pos]
  simpa using h

/-- A lane with a number of its own is added at the end. -/
theorem addLane_of_not_mem {s : Schedule} {lane : Lane} (h : lane.id ∉ s.lanes.map Lane.id) :
    s.addLane lane = (.ok (), { s with lanes := s.lanes ++ [lane] }) := by
  rw [addLane, if_neg]
  simpa using h

/-- Lanes that are accepted are added at the end, in their order. -/
theorem eq_of_addLanes {lanes : List Lane} {start s : Schedule}
    (h : start.addLanes lanes = .ok s) : s = { start with lanes := start.lanes ++ lanes } := by
  induction lanes generalizing start with
  | nil =>
    cases h
    rw [List.append_nil]
  | cons lane lanes ih =>
    rw [addLanes] at h
    by_cases hold : lane.id ∈ start.lanes.map Lane.id
    · rw [addLane_of_mem hold] at h
      cases h
    · rw [addLane_of_not_mem hold] at h
      rw [ih h, List.append_assoc, List.singleton_append]

theorem eq_of_ofLanes {name : String} {lanes : List Lane} {s : Schedule}
    (h : ofLanes name lanes = .ok s) : s = ⟨name, lanes⟩ :=
  eq_of_addLanes h

theorem lanes_of_ofLanes {name : String} {lanes : List Lane} {s : Schedule}
    (h : ofLanes name lanes = .ok s) : s.lanes = lanes := by
  rw [eq_of_ofLanes h]

end Schedule

/-! ## From a function to its lanes -/

namespace Compiler

theorem visibleLanes_resolve (options : Options) (schedule : Schedule) :
    visibleLanes (resolve options schedule).2.lanes = visibleLanes schedule.lanes := by
  have hlanes := (Pipeline.ofOptions options).visibleLanes_run
    ⟨schedule, { function := some schedule.name }⟩
  unfold resolve
  split <;> (rename_i hrun; rwa [hrun] at hlanes)

/-- Of a compiled function, the code of its lowered lanes is visible. -/
theorem visibleLanes_assemble {options : Options} {name : String}
    {lanes : List (LaneId × List Segment)} {compiled : CompiledFunction}
    (h : assemble options name lanes = .ok compiled) :
    visibleLanes compiled.schedule.lanes =
      lanes.map fun lane => (lane.1, visible (inlineAll lane.1 lane.2)) := by
  unfold assemble at h
  split at h
  · cases h
  · rename_i schedule hschedule
    have hplaced := visibleLanes_placeBarriers options.initialWait lanes
    rw [← Schedule.lanes_of_ofLanes hschedule] at hplaced
    have hlanes := visibleLanes_resolve options schedule
    split at h
    · rename_i hresolve
      cases h
      rw [hresolve] at hlanes
      exact hlanes.trans hplaced
    · cases h

/-- Each lane of a function is lowered by itself. -/
theorem lowered_of_lowerLanes {bodies : List LaneBody} {supply supply' : LabelSupply}
    {lanes : List (LaneId × List Segment)} (h : lowerLanes supply bodies = (.ok lanes, supply')) :
    List.Forall₂ (fun body lane => lane.1 = body.lane ∧ ∃ n m, Lowered [] n body.body lane.2 m)
      bodies lanes := by
  induction bodies generalizing supply lanes with
  | nil =>
    cases h
    exact .nil
  | cons body bodies ih =>
    unfold lowerLanes at h
    split at h
    · cases h
    · rename_i segments s hlower
      split at h
      · cases h
      · rename_i rest supply₁ hrest
        cases h
        exact .cons ⟨rfl, _, _, (lowered_of_lowerAll body.body hlower).2⟩ (ih hrest)

/-- Each lowered lane stems from a lane of the function. -/
theorem exists_lowered_of_mem {bodies : List LaneBody} {supply supply' : LabelSupply}
    {lanes : List (LaneId × List Segment)} (h : lowerLanes supply bodies = (.ok lanes, supply'))
    {lane : LaneId × List Segment} (hlane : lane ∈ lanes) :
    ∃ body ∈ bodies, lane.1 = body.lane ∧ ∃ n m, Lowered [] n body.body lane.2 m := by
  have hbodies := lowered_of_lowerLanes h
  obtain ⟨i, hi, rfl⟩ := List.getElem_of_mem hlane
  have hi' : i < bodies.length := hbodies.length_eq ▸ hi
  exact ⟨bodies[i], List.getElem_mem hi', hbodies.get hi' hi⟩

/-- A compiled lane has the number of the lane that it stems from, and it completes with exactly
the traces that the statements of that lane have in the counted discipline. -/
theorem lane_of_compileFunction {c : Compiler} {f : Function} {compiled : CompiledFunction}
    (h : (c.compileFunction f).1 = .ok compiled) {i : Nat} {body : LaneBody}
    (hi : f.lanes[i]? = some body) :
    ∃ lane, compiled.schedule.lanes[i]? = some lane ∧ lane.id = body.lane ∧
      ∀ env trace,
        Completes env lane.code trace ↔ RunsTo counted env body.lane body.body trace := by
  unfold compileFunction at h
  split at h
  · cases h
  · rename_i lanes supply hlower
    have hbodies := lowered_of_lowerLanes hlower
    have hvisible := visibleLanes_assemble h
    obtain ⟨hlt, hget⟩ := List.getElem?_eq_some_iff.1 hi
    have hlt' : i < lanes.length := hbodies.length_eq ▸ hlt
    obtain ⟨hid, n, m, hlowered⟩ := hbodies.get hlt hlt'
    simp only [List.get_eq_getElem, hget] at hid hlowered
    -- Lowered code is all visible, so the visible part of the lane is that code itself.
    have hcode : (visibleLanes compiled.schedule.lanes)[i]? =
        some (body.lane, inlineAll body.lane lanes[i].2) := by
      rw [hvisible, List.getElem?_map, List.getElem?_eq_getElem hlt', Option.map_some, hid,
        hlowered.visible_eq]
    rw [visibleLanes, List.getElem?_map] at hcode
    obtain ⟨lane, hlane, heq⟩ := Option.map_eq_some_iff.1 hcode
    obtain ⟨hlaneId, hlaneCode⟩ := Prod.mk.inj heq
    refine ⟨lane, hlane, hlaneId, ?_⟩
    intro env trace
    rw [completes_iff_visible, hlaneCode]
    exact hlowered.completes_iff env body.lane trace

/-- What a compiled lane does is what its statements do in the counted discipline. So it does what
they do in the structured one exactly if the two disciplines agree on them, and that is so if no
`break` leaves a counted loop inside another one. -/
theorem compileFunction_keeps_traces_iff {c : Compiler} {f : Function}
    {compiled : CompiledFunction} (h : (c.compileFunction f).1 = .ok compiled) {i : Nat}
    {body : LaneBody} (hi : f.lanes[i]? = some body) :
    ∃ lane, compiled.schedule.lanes[i]? = some lane ∧ lane.id = body.lane ∧ ∀ env : Environment,
      (∀ trace, Completes env lane.code trace ↔ RunsTo counted env body.lane body.body trace) ∧
      ((∀ trace, RunsTo structured env body.lane body.body trace →
          Completes env lane.code trace) ↔
        ∀ trace, RunsTo structured env body.lane body.body trace →
          RunsTo counted env body.lane body.body trace) ∧
      (breaksApartAll body.lane false false body.body = true →
        ∀ trace, RunsTo structured env body.lane body.body trace →
          Completes env lane.code trace) := by
  obtain ⟨lane, hlane, hid, hruns⟩ := lane_of_compileFunction h hi
  refine ⟨lane, hlane, hid, fun env => ⟨hruns env, ?_, ?_⟩⟩
  · constructor
    · intro hall trace hrun
      exact (hruns env trace).1 (hall trace hrun)
    · intro hall trace hrun
      exact (hruns env trace).2 (hall trace hrun)
  · intro hbreaks trace hrun
    exact (hruns env trace).2 (hrun.counted_of_breaksApart hbreaks)

/-- A lane with a measured loop and a counted loop in a block that another lane sits out. -/
def measuredLane : LaneBody where
  lane := ⟨0⟩
  body :=
    [.concurrent .unknown ⟨0⟩ [⟨0⟩, ⟨1⟩]
      [.whileDo .unknown (.bool true)
        [.measure "m" ⟨"R", [], .clamp 7⟩,
          .ifElse .unknown (.var "m") [.breakLoop .unknown] [.pulse "X" (.clamp 10)]],
        .repeatTimes .unknown 3 [.pulse "Y" (.clamp 5), .continueLoop .unknown]]]

theorem measuredLane_keeps_traces :
    ∃ compiled lane,
      ((new { level := 0 }).compileFunction (.ofLanes "f" [measuredLane, ⟨⟨1⟩, []⟩])).1 =
        .ok compiled ∧
      compiled.schedule.lanes[0]? = some lane ∧
      Completes (fun _ _ => 1) lane.code
        [.pulse "R" (.clamp 7), .pulse "Y" (.clamp 5), .pulse "Y" (.clamp 5),
          .pulse "Y" (.clamp 5)] := by
  obtain ⟨compiled, hcompiled⟩ : ∃ compiled,
      ((new { level := 0 }).compileFunction (.ofLanes "f" [measuredLane, ⟨⟨1⟩, []⟩])).1 =
        .ok compiled := ⟨_, rfl⟩
  have hbody : (Function.ofLanes "f" [measuredLane, ⟨⟨1⟩, []⟩]).lanes[0]? = some measuredLane := rfl
  obtain ⟨lane, hlane, -, hruns⟩ := compileFunction_keeps_traces_iff hcompiled hbody
  obtain ⟨-, -, hkept⟩ := hruns fun _ _ => 1
  exact ⟨compiled, lane, hcompiled, hlane, hkept rfl _ ⟨4, [], rfl⟩⟩

/-- The counter that a `break` leaves behind ends the loop around it: the statements go through two
rounds and the compiled lane through one. -/
theorem leftover_counter_ends_outer_loop :
    ∃ compiled lane,
      ((new {}).compileFunction (.ofLanes "f" [⟨⟨0⟩, nestedBreak 2 1⟩])).1 = .ok compiled ∧
      compiled.schedule.lanes[0]? = some lane ∧ ∀ env,
        RunsTo structured env ⟨0⟩ (nestedBreak 2 1)
          [.pulse "X" (.clamp 10), .pulse "Y" (.clamp 5), .pulse "X" (.clamp 10),
            .pulse "Y" (.clamp 5)] ∧
        Completes env lane.code [.pulse "X" (.clamp 10), .pulse "Y" (.clamp 5)] ∧
        ¬ Completes env lane.code
          [.pulse "X" (.clamp 10), .pulse "Y" (.clamp 5), .pulse "X" (.clamp 10),
            .pulse "Y" (.clamp 5)] := by
  obtain ⟨compiled, hcompiled⟩ : ∃ compiled,
      ((new {}).compileFunction (.ofLanes "f" [⟨⟨0⟩, nestedBreak 2 1⟩])).1 = .ok compiled :=
    ⟨_, rfl⟩
  have hbody : (Function.ofLanes "f" [⟨⟨0⟩, nestedBreak 2 1⟩]).lanes[0]? =
      some ⟨⟨0⟩, nestedBreak 2 1⟩ := rfl
  obtain ⟨lane, hlane, -, hruns⟩ := lane_of_compileFunction hcompiled hbody
  refine ⟨compiled, lane, hcompiled, hlane, fun env => ?_⟩
  have hshort : Completes env lane.code [.pulse "X" (.clamp 10), .pulse "Y" (.clamp 5)] :=
    (hruns env _).2 ⟨3, [2], rfl⟩
  refine ⟨⟨0, [], rfl⟩, hshort, ?_⟩
  intro hlong
  have hsame := congrArg List.length (hshort.unique hlong)
  cases hsame

end Compiler

end Lockstep
