import Lockstep.Proofs.Relabelled

/-!
# Sibling functions

The functions of a program share one label supply and nothing else. Lowering with a supply that is
`o` indices ahead gives the same segments with every index raised by `o`, and fails in the same
place (`follows_lowerAll`): `Lowering.Follows` relates two lowerings in this way, and is kept by all
that lowerings are made of. Everything after lowering goes by which labels are equal, so the outcome
for a function is raised as a whole (`Compiler.compileFunction_raise`).

`Compiler.siblings` lists the outcomes for the functions of a program, each compiled by itself and
raised by what its elder siblings take. The main statement is that a program records exactly these
outcomes, one after the other (`Compiler.compile_records_siblings`).
-/

set_option autoImplicit false

namespace Lockstep

/-! ## Lowering with another supply -/

/-- The labels of a loop, renamed. -/
def LoopLabels.relabel (ρ : Label → Label) (labels : LoopLabels) : LoopLabels :=
  ⟨ρ labels.continueTo, ρ labels.breakTo⟩

/-- A supply that is ahead by a number of indices. -/
def LabelSupply.raise (o : Nat) (supply : LabelSupply) : LabelSupply := ⟨supply.next + o⟩

/-- A lowerer that is ahead by a number of indices, inside the same loops. -/
def Lowerer.raise (o : Nat) (s : Lowerer) : Lowerer :=
  ⟨s.supply.raise o, s.loops.map (LoopLabels.relabel (Label.raise o))⟩

theorem LoopLabels.relabel_raise_zero (labels : LoopLabels) :
    labels.relabel (Label.raise 0) = labels := by
  simp [relabel]

theorem Lowerer.raise_zero (s : Lowerer) : s.raise 0 = s := by
  have hloops : s.loops.map (LoopLabels.relabel (Label.raise 0)) = s.loops :=
    List.map_id'' LoopLabels.relabel_raise_zero s.loops
  rw [raise, hloops]
  rfl

namespace Lowering

/-- From a lowerer that is `o` indices ahead, `y` does what `x` does from the lowerer itself: it
fails in the same way or has the result that `f` gives, and it is `o` indices ahead at the end. -/
def Follows {α : Type} (o : Nat) (f : α → α) (x y : Lowering α) : Prop :=
  ∀ s, y.outcome (s.raise o) = ((x.outcome s).1.map f, (x.outcome s).2.raise o)

section Follows

variable {α β : Type} {o : Nat} {f : α → α} {g : β → β}

theorem follows_pure {a b : α} (h : f a = b) :
    Follows o f (pure a : Lowering α) (pure b : Lowering α) := by
  intro s
  subst h
  rfl

theorem follows_throw (e : LoweringError) :
    Follows o f (throw e : Lowering α) (throw e : Lowering α) :=
  fun _ => rfl

theorem follows_lift (x : Except LoweringError α) :
    Follows o id (liftM x : Lowering α) (liftM x : Lowering α) := by
  intro s
  cases x <;> rfl

/-- Lowerings that follow one another step by step follow one another in a row. -/
theorem Follows.bind {x y : Lowering α} {k l : α → Lowering β} (h : Follows o f x y)
    (hk : ∀ a, Follows o g (k a) (l (f a))) : Follows o g (x >>= k) (y >>= l) := by
  intro s
  rw [outcome_bind, outcome_bind, h s]
  rcases x.outcome s with ⟨r, t⟩
  cases r with
  | error e => rfl
  | ok a => exact hk a t

/-- The index that is taken is ahead as well. -/
theorem follows_takeIndex (stems : List String) :
    Follows o (· + o) (takeIndex stems) (takeIndex stems) := by
  intro s
  simp only [outcome, takeIndex, LabelSupply.takeLabels]
  cases firstRepeated? [] stems with
  | some stem => rfl
  | none =>
    simp only [LabelSupply.takeIndex, Lowerer.raise, LabelSupply.raise, Except.map,
      Nat.add_right_comm]

/-- A body follows inside of a loop with raised labels. -/
theorem Follows.withinLoop {x y : Lowering α} (labels : LoopLabels) (h : Follows o f x y) :
    Follows o f (withinLoop labels x) (withinLoop (labels.relabel (Label.raise o)) y) := by
  intro s
  have hbody := h { s with loops := labels :: s.loops }
  simp only [outcome, Lowering.withinLoop, Lowerer.raise, List.map_cons] at hbody ⊢
  rw [hbody]
  rcases x { s with loops := labels :: s.loops } with ⟨r, t⟩
  simp only [List.map_tail]

theorem follows_innermostLoop (keyword : String) (location : Location) :
    Follows o (LoopLabels.relabel (Label.raise o)) (innermostLoop keyword location)
      (innermostLoop keyword location) := by
  rintro ⟨supply, loops⟩
  cases loops <;> rfl

end Follows

end Lowering

section Shapes

variable (o k : Nat)

theorem relabelAll_callShape (ρ : Label → Label) (c : Call) (purpose : Purpose) :
    relabelAll ρ (callShape c purpose) = callShape c purpose := by
  cases purpose <;> rfl

theorem relabelAll_assignShape (ρ : Label → Label) (target : String) (value : Expr)
    (purpose : Purpose) :
    relabelAll ρ (assignShape target value purpose) = assignShape target value purpose := by
  cases purpose with
  | measurement => cases value <;> rfl
  | _ => rfl

theorem relabel_whileLabels : (whileLabels k).relabel (Label.raise o) = whileLabels (k + o) := by
  simp [LoopLabels.relabel, whileLabels]

theorem relabel_repeatLabels : (repeatLabels k).relabel (Label.raise o) = repeatLabels (k + o) := by
  simp [LoopLabels.relabel, repeatLabels]

theorem relabelAll_whileShape (exit : LoopExit) (body : List Segment) :
    relabelAll (Label.raise o) (whileShape k exit body) =
      whileShape (k + o) exit (relabelAll (Label.raise o) body) := by
  have hexit : relabelCode (Label.raise o) (exit.code (.indexed "endwhile" k)) =
      exit.code (.indexed "endwhile" (k + o)) := by
    cases exit <;> simp [LoopExit.code, Instruction.relabel]
  simp [whileShape, Instruction.relabel, hexit]

theorem relabelAll_ifShape (test : Comparison) (body orelse : List Segment) :
    relabelAll (Label.raise o) (ifShape k test body orelse) =
      ifShape (k + o) test (relabelAll (Label.raise o) body)
        (relabelAll (Label.raise o) orelse) := by
  simp [ifShape, Instruction.relabel]

theorem relabelAll_repeatShape (count : UInt32) (body : List Segment) :
    relabelAll (Label.raise o) (repeatShape k count body) =
      repeatShape (k + o) count (relabelAll (Label.raise o) body) := by
  simp [repeatShape, Instruction.relabel]

end Shapes

open Lowering

/-- Members that are no groups are refused in the same way if they stand at the same place. -/
theorem follows_lowerGroups_of_not_isGroup {o : Nat} {f : List Segment → List Segment}
    {st st' : Statement} (h : st.isGroup = false) (h' : st'.isGroup = false)
    (hloc : st'.location = st.location) (rest rest' : List Statement) :
    Follows o f (lowerGroups (st :: rest)) (lowerGroups (st' :: rest')) := by
  rw [lowerGroups_of_not_isGroup h, lowerGroups_of_not_isGroup h', hloc]
  exact follows_throw _

mutual

/-- A statement lowered from a supply that is ahead has the same code with raised labels. -/
theorem follows_lower (o : Nat) :
    ∀ st : Statement, Follows o (relabelAll (Label.raise o)) st.lower st.lower
  | .call _ c purpose => by
    rw [Statement.lower]
    exact follows_pure (relabelAll_callShape _ c purpose)
  | .assign _ target value purpose => by
    rw [Statement.lower]
    exact follows_pure (relabelAll_assignShape _ target value purpose)
  | .whileDo loc test body => by
    rw [Statement.lower]
    refine (follows_lift _).bind fun exit => (follows_takeIndex whileStems).bind fun k => ?_
    rw [← relabel_whileLabels]
    refine ((follows_lowerAll o body).withinLoop _).bind fun inner => ?_
    exact follows_pure (relabelAll_whileShape o k exit inner)
  | .ifElse loc test body orelse => by
    rw [Statement.lower]
    refine (follows_lift _).bind fun c => (follows_takeIndex ifStems).bind fun k => ?_
    refine (follows_lowerAll o orelse).bind fun otherwise => ?_
    refine (follows_lowerAll o body).bind fun inner => ?_
    exact follows_pure (relabelAll_ifShape o k c inner otherwise)
  | .breakLoop loc => by
    rw [Statement.lower]
    exact (follows_innermostLoop _ loc).bind fun labels => follows_pure rfl
  | .continueLoop loc => by
    rw [Statement.lower]
    exact (follows_innermostLoop _ loc).bind fun labels => follows_pure rfl
  | .repeatTimes loc count body => by
    rw [Statement.lower]
    refine (follows_takeIndex repeatStems).bind fun k => ?_
    rw [← relabel_repeatLabels]
    refine ((follows_lowerAll o body).withinLoop _).bind fun inner => ?_
    exact follows_pure (relabelAll_repeatShape o k count inner)
  | .sequential loc body => by
    rw [Statement.lower]
    exact follows_lowerAll o body
  | .concurrent loc block lanes body => by
    rw [Statement.lower]
    exact (follows_lowerAll o body).bind fun inner => follows_pure rfl
  | .grouped loc groups => by
    rw [Statement.lower]
    exact follows_lowerGroups o groups
  | .group loc lane body => by
    rw [Statement.lower]
    exact (follows_lowerAll o body).bind fun inner => follows_pure rfl

/-- Statements are lowered to the same segments, with raised indices. -/
theorem follows_lowerAll (o : Nat) :
    ∀ body : List Statement, Follows o (relabelAll (Label.raise o)) (lowerAll body) (lowerAll body)
  | [] => by
    rw [lowerAll]
    exact follows_pure rfl
  | st :: rest => by
    rw [lowerAll]
    refine (follows_lower o st).bind fun first => ?_
    refine (follows_lowerAll o rest).bind fun others => ?_
    exact follows_pure (relabelAll_append _ first others)

/-- So has a row of groups. -/
theorem follows_lowerGroups (o : Nat) : ∀ members : List Statement,
    Follows o (relabelAll (Label.raise o)) (lowerGroups members) (lowerGroups members)
  | [] => by
    rw [lowerGroups]
    exact follows_pure rfl
  | member :: rest => by
    cases member with
    | group loc lane body =>
      rw [lowerGroups]
      refine (follows_lowerAll o body).bind fun inner => ?_
      exact (follows_lowerGroups o rest).bind fun others => follows_pure rfl
    | _ => exact follows_lowerGroups_of_not_isGroup rfl rfl rfl rest rest

end

/-! ## Compiling with another supply -/

/-- An error with its label renamed. -/
def CompileError.relabel (ρ : Label → Label) : CompileError → CompileError
  | .timing e => .timing (e.relabel ρ)
  | .undefinedLabel lane name => .undefinedLabel lane (ρ name)
  | .duplicateLabel lane name => .duplicateLabel lane (ρ name)
  | e => e

/-- A compiled function with its labels renamed. -/
def CompiledFunction.relabel (ρ : Label → Label) (compiled : CompiledFunction) : CompiledFunction :=
  { compiled with schedule := compiled.schedule.relabel ρ }

namespace Compiler

/-- The outcome for a function with its labels renamed. -/
def relabelOutcome (ρ : Label → Label) :
    Except CompileError CompiledFunction → Except CompileError CompiledFunction
  | .ok compiled => .ok (compiled.relabel ρ)
  | .error e => .error (e.relabel ρ)

/-- Lowered lanes with their labels renamed. -/
def relabelLanes (ρ : Label → Label) (lanes : List (LaneId × List Segment)) :
    List (LaneId × List Segment) :=
  lanes.map fun lane => (lane.1, relabelAll ρ lane.2)

/-- So have the lanes of a function. -/
theorem lowerLanes_raise (o : Nat) (supply : LabelSupply) (bodies : List LaneBody) :
    lowerLanes (supply.raise o) bodies =
      ((lowerLanes supply bodies).1.map (relabelLanes (Label.raise o)),
        (lowerLanes supply bodies).2.raise o) := by
  induction bodies generalizing supply with
  | nil => rfl
  | cons body bodies ih =>
    have hbody : (Lowerer.new (supply.raise o)).lower body.body =
        (((Lowerer.new supply).lower body.body).1.map (relabelAll (Label.raise o)),
          ((Lowerer.new supply).lower body.body).2.raise o) :=
      follows_lowerAll o body.body (Lowerer.new supply)
    simp only [lowerLanes, hbody]
    rcases (Lowerer.new supply).lower body.body with ⟨r, s⟩
    cases r with
    | error e => rfl
    | ok segments =>
      have hrest : lowerLanes (s.raise o).supply bodies = _ := ih s.supply
      simp only [Except.map, hrest]
      rcases lowerLanes s.supply bodies with ⟨r', supply'⟩
      cases r' <;> rfl

/-- Lowered lanes become the same function, whatever their labels are called. The labels of both are
sound, so that verification has no part in it. -/
theorem assemble_relabel {ρ : Label → Label} (hρ : Function.Injective ρ) (options : Options)
    (name : String) {lanes : List (LaneId × List Segment)}
    (hsound : ∀ lane ∈ placeBarriers options.initialWait lanes, LabelsSound lane.code)
    (hsound' : ∀ lane ∈ placeBarriers options.initialWait (relabelLanes ρ lanes),
      LabelsSound lane.code) :
    assemble options name (relabelLanes ρ lanes) =
      relabelOutcome ρ (assemble options name lanes) := by
  unfold assemble
  rw [relabelLanes, placeBarriers_relabel] at hsound' ⊢
  rw [Schedule.ofLanes_relabel]
  cases hschedule : Schedule.ofLanes name (placeBarriers options.initialWait lanes) with
  | error e => rfl
  | ok schedule =>
    rw [← Schedule.lanes_of_ofLanes hschedule] at hsound hsound'
    have hsound'' : ∀ lane ∈ (schedule.relabel ρ).lanes, LabelsSound lane.code := hsound'
    simp only [Except.map]
    rw [resolve_eq options hsound, resolve_eq options hsound'']
    have harrange : arrange options (schedule.relabel ρ).lanes = _ :=
      arrange_relabel hρ options schedule.lanes
    rw [harrange]
    rcases arrange options schedule.lanes with ⟨_ | _, arranged⟩ <;> rfl

/-- Compiling a function with a supply that is ahead gives the same outcome with raised indices. -/
theorem compileFunction_raise (o : Nat) (options : Options) (supply : LabelSupply) (f : Function) :
    compileFunction ⟨options, supply.raise o⟩ f =
      (relabelOutcome (Label.raise o) (compileFunction ⟨options, supply⟩ f).1,
        ⟨options, (compileFunction ⟨options, supply⟩ f).2.supply.raise o⟩) := by
  have hraise := lowerLanes_raise o supply f.lanes
  unfold compileFunction
  rcases hlower : lowerLanes supply f.lanes with ⟨r, supply'⟩
  rw [hlower] at hraise
  simp only [hraise]
  cases r with
  | error e => rfl
  | ok lanes =>
    have hsound := labelsSound_placeBarriers hlower options.initialWait
    have hsound' := labelsSound_placeBarriers hraise options.initialWait
    simp only [Except.map, assemble_relabel (Label.raise_injective o) options f.name hsound hsound']

/-- The label supply is never the reason why a function fails. -/
theorem isLabelError_of_compileFunction {c : Compiler} {f : Function} {e : CompileError}
    (h : (c.compileFunction f).1 = .error e) : e.isLabelError = false := by
  unfold compileFunction at h
  rcases hlower : lowerLanes c.supply f.lanes with ⟨r, supply⟩
  rw [hlower] at h
  cases r with
  | ok lanes => rcases assemble_eq_error hlower h with ⟨e', rfl⟩ | ⟨e', rfl⟩ <;> rfl
  | error e' =>
    obtain rfl : CompileError.lowering e' = e := Except.error.inj h
    have hne := lowerLanes_ne_label c.supply f.lanes
    rw [hlower] at hne
    cases e' with
    | label e'' => exact absurd rfl (hne e'')
    | _ => rfl

/-! ## What a program records -/

/-- The outcome for a function that is compiled by itself. -/
def alone (options : Options) (f : Function) : Except CompileError CompiledFunction :=
  ((new options).compileFunction f).1

/-- The number of indices that functions take, each compiled by itself. Those that a function takes
before it fails are counted. -/
def indicesTaken (options : Options) : List Function → Nat
  | [] => 0
  | f :: fs => ((new options).compileFunction f).2.supply.next + indicesTaken options fs

/-- The outcomes for the functions of a program: each function is compiled by itself, and its labels
are raised by the number of indices that the functions before it take. -/
def siblings (options : Options) (fs : List Function) :
    List (Function × Except CompileError CompiledFunction) :=
  fs.mapIdx fun k f =>
    (f, relabelOutcome (Label.raise (indicesTaken options (fs.take k))) (alone options f))

/-- What is reported about a function. -/
def reported (f : Function) : Except CompileError CompiledFunction → List Diagnostic
  | .ok compiled => warningsOf f compiled
  | .error e => [errorIn f e]

/-- The output that outcomes make. -/
def output (outcomes : List (Function × Except CompileError CompiledFunction)) : CompileOutput where
  functions := outcomes.filterMap fun (_, outcome) => outcome.toOption
  diagnostics := outcomes.flatMap fun (f, outcome) => reported f outcome

theorem output_cons (f : Function) (outcome : Except CompileError CompiledFunction)
    (rest : List (Function × Except CompileError CompiledFunction)) :
    output ((f, outcome) :: rest) =
      ⟨outcome.toOption.toList ++ (output rest).functions,
        reported f outcome ++ (output rest).diagnostics⟩ := by
  cases outcome <;> rfl

theorem compileFunctions_cons (c : Compiler) (f : Function) (fs : List Function) :
    c.compileFunctions (f :: fs) =
      let (outcome, c) := c.compileFunction f
      let (rest, c) := c.compileFunctions fs
      (⟨outcome.toOption.toList ++ rest.functions, reported f outcome ++ rest.diagnostics⟩, c) := by
  rw [compileFunctions]
  rcases h : c.compileFunction f with ⟨outcome, c'⟩
  cases outcome with
  | ok compiled => rfl
  | error e =>
    have hlabel : e.isLabelError = false := isLabelError_of_compileFunction (congrArg Prod.fst h)
    simp only [hlabel]
    rfl

/-- Functions are compiled one after the other as they are by themselves, with their labels raised
by the indices that are taken: `o` of them at the start. -/
theorem compileFunctions_eq (options : Options) (o : Nat) (fs : List Function) :
    compileFunctions ⟨options, ⟨o⟩⟩ fs =
      (output (fs.mapIdx fun k f =>
        (f, relabelOutcome (Label.raise (o + indicesTaken options (fs.take k))) (alone options f))),
        ⟨options, ⟨o + indicesTaken options fs⟩⟩) := by
  induction fs generalizing o with
  | nil => rfl
  | cons f fs ih =>
    have hraise := compileFunction_raise o options .fresh f
    have hsupply : LabelSupply.fresh.raise o = ⟨o⟩ := by simp [LabelSupply.raise, LabelSupply.fresh]
    -- The others start where the first function stops.
    have hnext : ∀ n m : Nat, n + o + m = o + (n + m) := by omega
    rw [hsupply] at hraise
    rw [compileFunctions_cons, hraise]
    simp only [LabelSupply.raise, ih, List.mapIdx_cons, output_cons, List.take_zero,
      List.take_succ_cons, indicesTaken, Nat.add_zero, hnext]
    rfl

/-! ## What outcomes amount to -/

/-- The place of a diagnostic about an error in a function: that of the error, or that of the
function if the error has no known place. -/
def placeOf (f : Function) (e : CompileError) : Option Location :=
  (e.location?.filter Location.isKnown).or ((some f.location).filter Location.isKnown)

theorem errorIn_eq (f : Function) (e : CompileError) :
    errorIn f e =
      { code := some (Diagnostic.classify e).1
        severity := (Diagnostic.classify e).2
        function := some f.name
        location := placeOf f e
        message := e.message
        hint := Diagnostic.hintFor e } := by
  unfold errorIn Diagnostic.ofError placeOf
  cases e.location? with
  | none =>
    cases h : f.location.isKnown <;>
      simp [Diagnostic.orLocation, Diagnostic.withLocation, Option.filter, h]
  | some location =>
    cases h : f.location.isKnown <;> cases h' : location.isKnown <;>
      simp [Diagnostic.orLocation, Diagnostic.withLocation, Option.filter, h, h']

/-- Every error holds the output back. -/
theorem isError_errorIn (f : Function) (e : CompileError) : (errorIn f e).isError = true := by
  rw [errorIn_eq]
  cases e with
  | lowering e => cases e <;> rfl
  | _ => rfl

/-- Only the text of an error tells what its label is called. -/
theorem errorIn_relabel (ρ : Label → Label) (f : Function) (e : CompileError) :
    errorIn f (e.relabel ρ) = { errorIn f e with message := (e.relabel ρ).message } := by
  rw [errorIn_eq, errorIn_eq]
  cases e <;> rfl

theorem mismatchWarning_is_warning (f : Function) (counts : List Nat) :
    (mismatchWarning f counts).code = some .mismatchedBarriers ∧
      (mismatchWarning f counts).severity = .warning := by
  unfold mismatchWarning Diagnostic.withLocation
  simp only
  split <;> exact ⟨rfl, rfl⟩

theorem countP_isError_reported (f : Function) (outcome : Except CompileError CompiledFunction) :
    (reported f outcome).countP Diagnostic.isError + outcome.toOption.toList.length = 1 := by
  cases outcome with
  | error e => simp [reported, isError_errorIn, Except.toOption]
  | ok compiled =>
    simp only [reported, warningsOf, Except.toOption]
    split
    · rename_i counts _
      simp [Diagnostic.isError, (mismatchWarning_is_warning f counts).2, Severity.blocks]
    · rfl

/-- Each outcome is a function or an error. -/
theorem length_output (outcomes : List (Function × Except CompileError CompiledFunction)) :
    (output outcomes).functions.length + (output outcomes).diagnostics.countP Diagnostic.isError =
      outcomes.length := by
  induction outcomes with
  | nil => rfl
  | cons head rest ih =>
    obtain ⟨f, outcome⟩ := head
    have hone := countP_isError_reported f outcome
    simp only [output_cons, List.length_append, List.countP_append, List.length_cons]
    omega

/-- There are no errors exactly if all functions are compiled. -/
theorem hasErrors_output (outcomes : List (Function × Except CompileError CompiledFunction)) :
    (output outcomes).hasErrors = false ↔ ∀ o ∈ outcomes, ∃ compiled, o.2 = .ok compiled := by
  induction outcomes with
  | nil => simp [output, CompileOutput.hasErrors]
  | cons head rest ih =>
    obtain ⟨f, outcome⟩ := head
    have hhead : (reported f outcome).any Diagnostic.isError = false ↔
        ∃ compiled, outcome = .ok compiled := by
      have hone := countP_isError_reported f outcome
      cases outcome with
      | error e => simp [reported, isError_errorIn]
      | ok compiled =>
        have hzero : (reported f (.ok compiled)).countP Diagnostic.isError = 0 := by
          simpa [Except.toOption] using hone
        rw [List.countP_eq_zero] at hzero
        simpa using hzero
    simp only [CompileOutput.hasErrors] at ih
    simp only [CompileOutput.hasErrors, output_cons, List.any_append, Bool.or_eq_false_iff, hhead,
      ih, List.forall_mem_cons]

/-- Raising labels keeps compiled functions compiled and errors errors. -/
theorem forall_siblings_compiled (options : Options) (fs : List Function) :
    (∀ o ∈ siblings options fs, ∃ compiled, o.2 = .ok compiled) ↔
      ∀ f ∈ fs, ∃ compiled, alone options f = .ok compiled := by
  have hraise : ∀ (ρ : Label → Label) (outcome : Except CompileError CompiledFunction),
      (∃ compiled, relabelOutcome ρ outcome = .ok compiled) ↔
        ∃ compiled, outcome = .ok compiled := by
    intro ρ outcome
    cases outcome <;> simp [relabelOutcome]
  constructor
  · intro h f hf
    obtain ⟨k, hk, rfl⟩ := List.getElem_of_mem hf
    exact (hraise _ _).1 (h _ (List.mem_mapIdx.2 ⟨k, hk, rfl⟩))
  · intro h o ho
    obtain ⟨k, hk, rfl⟩ := List.mem_mapIdx.1 ho
    exact (hraise _ _).2 (h _ (List.getElem_mem hk))

/-- A program records for each of its functions what becomes of that function by itself, with its
labels raised by the number of indices that the functions before it take, and nothing else. Each
function adds one compiled function, with one warning if its lanes do not match, or one error; the
error differs from that of the function by itself at most in the label that its text names. So there
are as many functions and errors as the program has functions, and the output is released if and
only if every function compiles by itself. -/
theorem compile_records_siblings (c : Compiler) (p : Program) :
    c.compile p =
      (output (siblings c.options p.functions),
        { c with supply := ⟨indicesTaken c.options p.functions⟩ }) ∧
    (∀ (f : Function) (o : Nat),
      match alone c.options f with
      | .ok compiled =>
        reported f (.ok (compiled.relabel (Label.raise o))) =
          (compiled.report.bind Report.mismatch).toList.map (mismatchWarning f)
      | .error e =>
        reported f (.error (e.relabel (Label.raise o))) =
            [{ errorIn f e with message := (e.relabel (Label.raise o)).message }] ∧
          (errorIn f e).isError = true) ∧
    (∀ f counts, (mismatchWarning f counts).code = some .mismatchedBarriers ∧
      (mismatchWarning f counts).severity = .warning) ∧
    (c.compile p).1.functions.length + (c.compile p).1.diagnostics.countP Diagnostic.isError =
      p.functions.length ∧
    ((∃ functions, (c.compile p).1.release = .ok functions) ↔
      ∀ f ∈ p.functions, ∃ compiled, alone c.options f = .ok compiled) := by
  have hcompile : c.compile p = (output (siblings c.options p.functions),
      { c with supply := ⟨indicesTaken c.options p.functions⟩ }) := by
    have heq := compileFunctions_eq c.options 0 p.functions
    simp only [Nat.zero_add] at heq
    exact heq
  refine ⟨hcompile, ?_, mismatchWarning_is_warning, ?_, ?_⟩
  · intro f o
    split
    · rename_i compiled _
      show warningsOf f compiled = _
      unfold warningsOf
      split <;> simp_all
    · rename_i e _
      exact ⟨congrArg (fun d => [d]) (errorIn_relabel _ f e), isError_errorIn f e⟩
  · rw [hcompile, length_output]
    simp [siblings]
  · rw [hcompile]
    have hrelease : (∃ functions, (output (siblings c.options p.functions)).release =
        .ok functions) ↔ (output (siblings c.options p.functions)).hasErrors = false := by
      unfold CompileOutput.release
      split <;> simp_all
    rw [hrelease, hasErrors_output, forall_siblings_compiled]

end Compiler

end Lockstep
