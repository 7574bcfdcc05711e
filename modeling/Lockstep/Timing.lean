import Lockstep.Schedule

/-!
# Timing

How long a lane takes from one barrier to the next, as far as that is known before it runs. The lane
is walked instruction by instruction, jumps included; tests that depend on runtime values, and jumps
backwards, make the time unknown. A counted loop is walked once and its time multiplied, if its body
was entered at the label that its end goes back to; otherwise the walk goes back and counts one
round less.

`Walk.step` is one step and `Walk.run` the whole walk, for any clock. `Block.work` bounds what is
left to do and is lowered by every step, so every walk ends, whatever the instructions are. Lanes
are timed with the clock of durations.
-/

set_option autoImplicit false

namespace Lockstep

/-- How long a lane takes. -/
inductive Timing (τ : Type := Duration) where
  /-- A time known before the lane runs. -/
  | fixed (time : τ)
  /-- A time that depends on runtime values. -/
  | dynamic
deriving DecidableEq

/-- Why a lane cannot be walked. -/
inductive TimingError where
  /-- The target of a call is not ahead in the block. -/
  | unresolvedCall (lane : LaneId) (target : Label)
  /-- The target of a jump is not in the block. -/
  | unresolvedGoto (lane : LaneId) (target : Label)
  /-- The end of a counted loop does not find the start of its body. -/
  | unresolvedRepeat (lane : LaneId) (target : Label)
  /-- The end of a counted loop that was not opened. -/
  | repeatWithoutLoad (lane : LaneId) (position : Nat)
  /-- A return without a call. -/
  | returnWithoutCall (lane : LaneId) (position : Nat)
  /-- The walk ended elsewhere than at the end of its block. -/
  | desync (lane : LaneId) (rank expected : Nat) (found : Option Nat)
deriving DecidableEq

namespace TimingError

/-- A position that may be missing. -/
def positionText : Option Nat → String
  | some position => "Some(" ++ toString position ++ ")"
  | none => "None"

/-- The text of an error. -/
def message : TimingError → String
  | unresolvedCall lane target =>
    "Lane " ++ lane.text ++ ": call target '" ++ target.name ++
      "' not found before the next barrier"
  | unresolvedGoto lane target =>
    "Lane " ++ lane.text ++ ": goto target '" ++ target.name ++
      "' not found in the current block"
  | unresolvedRepeat lane target =>
    "Lane " ++ lane.text ++ ": repeat target '" ++ target.name ++ "' not found"
  | repeatWithoutLoad lane position =>
    "Lane " ++ lane.text ++ ": Repeat at position " ++ toString position ++
      " without a matching LoadRepeat"
  | returnWithoutCall lane position =>
    "Lane " ++ lane.text ++ ": Return at position " ++ toString position ++
      " without a matching Call"
  | desync lane rank expected found =>
    "Lane " ++ lane.text ++ ": walk for barrier rank " ++ toString rank ++
      " ended at position " ++ positionText found ++ ", expected " ++ toString expected

end TimingError

/-! ## Labels in code -/

/-- The first position from `start` up to `stop` at which a label is defined. -/
def firstLabel? (code : List Instruction) (start stop : Nat) (target : Label) : Option Nat :=
  (((code.take stop).drop start).findIdx? (·.defines target)).map (start + ·)

/-- The index of the last element with a property. -/
def lastIdx? {α : Type} (p : α → Bool) : List α → Option Nat
  | [] => none
  | a :: as =>
    match lastIdx? p as with
    | some i => some (i + 1)
    | none => if p a then some 0 else none

/-- The last position from `start` up to `stop` at which a label is defined. -/
def lastLabel? (code : List Instruction) (start stop : Nat) (target : Label) : Option Nat :=
  (lastIdx? (·.defines target) ((code.take stop).drop start)).map (start + ·)

/-! ## The walk -/

/-- A stretch of a lane: the instructions from `first` to the barrier, or the end of the lane, at
`last`. The rank is the number of barriers before it. -/
structure Block where
  lane : Lane
  first : Nat
  last : Nat
  rank : Nat

/-- A counted loop that is open. -/
structure RepeatFrame (τ : Type := Duration) where
  /-- The rounds still to go, the current one included. -/
  remaining : Nat
  /-- The position at which the loop was opened. -/
  load : Nat
  /-- The position at which the current count of time started. -/
  head : Nat
  /-- The time at that position. -/
  elapsedAtHead : τ
deriving DecidableEq

/-- Where a walk stands. -/
structure Walk (τ : Type := Duration) where
  /-- The current position. -/
  cursor : Nat
  /-- The time since the start of the block or the last `wait`. -/
  elapsed : τ
  /-- The positions to return to, innermost first. -/
  returns : List Nat
  /-- The open counted loops, innermost first. -/
  frames : List (RepeatFrame τ)
deriving DecidableEq

/-- What a step leads to. -/
inductive Walk.Step (τ : Type := Duration) where
  | halt (result : Except TimingError (Timing τ))
  | next (walk : Walk τ)

/-- The walk at the start of a block. -/
def Block.start (b : Block) (τ : Type := Duration) [Clock τ] : Walk τ :=
  ⟨b.first, Clock.zero, [], []⟩

namespace Walk

section Steps

variable {τ : Type} [Clock τ]

/-- The walk at the next position. -/
def advance (w : Walk τ) : Walk τ := { w with cursor := w.cursor + 1 }

/-- The step at the end of a counted loop. -/
def stepRepeat (b : Block) (target : Label) (w : Walk τ) : Step τ :=
  match w.frames with
  | [] => .halt (.error (.repeatWithoutLoad b.lane.id w.cursor))
  | frame :: frames =>
    let remaining := frame.remaining - 1
    if remaining = 0 then .next { w.advance with frames }
    else if (b.lane.code[frame.head]?.any (·.defines target)) then
      let body := w.elapsed - frame.elapsedAtHead
      .next { w.advance with frames, elapsed := w.elapsed + Clock.scale body remaining }
    else
      match lastLabel? b.lane.code (frame.load + 1) w.cursor target with
      | none => .halt (.error (.unresolvedRepeat b.lane.id target))
      | some head =>
        let frame := { frame with remaining, head, elapsedAtHead := w.elapsed }
        .next { w with cursor := head, frames := frame :: frames }

/-- The step at a jump. -/
def stepGoto (b : Block) (target : Label) (w : Walk τ) : Step τ :=
  match firstLabel? b.lane.code (w.cursor + 1) b.last target with
  | some position => .next { w with cursor := position }
  | none =>
    match firstLabel? b.lane.code b.first (w.cursor + 1) target with
    | some _ => .halt (.ok .dynamic)
    | none => .halt (.error (.unresolvedGoto b.lane.id target))

/-- The step at an instruction. -/
def stepAt (b : Block) (w : Walk τ) : Instruction → Step τ
  | .barrier _ _ =>
    if w.cursor = b.last then .halt (.ok (.fixed w.elapsed))
    else .halt (.error (.desync b.lane.id b.rank b.last (some w.cursor)))
  | .pulse _ duration =>
    .next { w.advance with elapsed := w.elapsed + Clock.ofDuration duration }
  | .delay duration => .next { w.advance with elapsed := w.elapsed + Clock.ofDuration duration }
  | .store _ _ | .label _ | .sync => .next w.advance
  | .wait =>
    if w.frames.isEmpty then .next { w.advance with elapsed := Clock.zero }
    else .halt (.ok .dynamic)
  | .gotoIf _ _ | .compare _ | .loadCompare => .halt (.ok .dynamic)
  | .loadRepeat count =>
    let frame := ⟨count.toNat, w.cursor, w.cursor + 1, w.elapsed⟩
    .next { w.advance with frames := frame :: w.frames }
  | .repeatFrom target => stepRepeat b target w
  | .call target =>
    match firstLabel? b.lane.code (w.cursor + 1) b.last target with
    | some position => .next { w with cursor := position, returns := (w.cursor + 1) :: w.returns }
    | none => .halt (.error (.unresolvedCall b.lane.id target))
  | .ret =>
    match w.returns with
    | position :: returns => .next { w with cursor := position, returns }
    | [] => .halt (.error (.returnWithoutCall b.lane.id w.cursor))
  | .goto target => stepGoto b target w

/-- One step. Beyond the end of the lane the walk is over. -/
def step (b : Block) (w : Walk τ) : Step τ :=
  match b.lane.code[w.cursor]? with
  | some i => stepAt b w i
  | none =>
    if w.cursor = b.last then .halt (.ok (.fixed w.elapsed))
    else .halt (.error (.desync b.lane.id b.rank b.last none))

end Steps

end Walk

/-! ## Every walk ends -/

/-- A bound on the work that a piece of code can still cause. A counted loop may be gone through
once more for each of its rounds, and what follows a call may be gone through again after the
return. -/
def workOf : List Instruction → Nat
  | [] => 0
  | .loadRepeat count :: code => workOf code + 1 + count.toNat * (workOf code + 1)
  | .call _ :: code => 2 * workOf code + 2
  | _ :: code => workOf code + 1

theorem workOf_lt_cons (i : Instruction) (code : List Instruction) :
    workOf code < workOf (i :: code) := by
  cases i <;> simp only [workOf] <;> omega

namespace Block

/-- The work of the code from a position on. -/
def workFrom (b : Block) (position : Nat) : Nat := workOf (b.lane.code.drop position)

/-- A bound on the work left in a walk: that of the code ahead, of the code after each return, and
of each open loop once for each of its rounds. -/
def work {τ : Type} (b : Block) (w : Walk τ) : Nat :=
  b.workFrom w.cursor + w.returns.foldr (fun r n => b.workFrom r + 1 + n) 0 +
    w.frames.foldr (fun f n => f.remaining * (b.workFrom (f.load + 1) + 1) + n) 0

theorem workFrom_succ_le (b : Block) (position : Nat) :
    b.workFrom (position + 1) ≤ b.workFrom position := by
  unfold workFrom
  rw [← List.drop_drop, List.drop_one]
  cases b.lane.code.drop position with
  | nil => exact Nat.le_refl _
  | cons i code => exact Nat.le_of_lt (workOf_lt_cons i code)

theorem workFrom_anti (b : Block) {p q : Nat} (h : p ≤ q) : b.workFrom q ≤ b.workFrom p := by
  induction h with
  | refl => exact Nat.le_refl _
  | step _ ih => exact Nat.le_trans (b.workFrom_succ_le _) ih

theorem workFrom_eq (b : Block) {position : Nat} {i : Instruction}
    (h : b.lane.code[position]? = some i) :
    b.workFrom position = workOf (i :: b.lane.code.drop (position + 1)) := by
  obtain ⟨hlt, rfl⟩ := List.getElem?_eq_some_iff.1 h
  unfold workFrom
  rw [List.drop_eq_getElem_cons hlt]

theorem workFrom_succ_lt (b : Block) {position : Nat} {i : Instruction}
    (h : b.lane.code[position]? = some i) :
    b.workFrom (position + 1) < b.workFrom position := by
  rw [b.workFrom_eq h]
  exact workOf_lt_cons i _

end Block

theorem le_of_firstLabel? {code : List Instruction} {start stop position : Nat} {target : Label}
    (h : firstLabel? code start stop target = some position) : start ≤ position := by
  obtain ⟨i, _, rfl⟩ := Option.map_eq_some_iff.1 h
  exact Nat.le_add_right _ _

theorem le_of_lastLabel? {code : List Instruction} {start stop position : Nat} {target : Label}
    (h : lastLabel? code start stop target = some position) : start ≤ position := by
  obtain ⟨i, _, rfl⟩ := Option.map_eq_some_iff.1 h
  exact Nat.le_add_right _ _

namespace Walk

section Work

variable {τ : Type} [Clock τ] {b : Block} {w w' : Walk τ}

theorem work_stepRepeat {target : Label} {i : Instruction}
    (hi : b.lane.code[w.cursor]? = some i) (h : stepRepeat b target w = .next w') :
    b.work w' < b.work w := by
  have ahead := b.workFrom_succ_lt hi
  unfold stepRepeat at h
  split at h
  · cases h
  · rename_i frame frames hf
    simp only at h
    split at h
    · cases h
      simp only [Block.work, advance, hf, List.foldr_cons]
      omega
    · split at h
      · cases h
        simp only [Block.work, advance, hf, List.foldr_cons]
        omega
      · split at h
        · cases h
        · rename_i hr _ head hh
          cases h
          have back := b.workFrom_anti (le_of_lastLabel? hh)
          obtain ⟨r, hr⟩ : ∃ r, frame.remaining = r + 1 := ⟨frame.remaining - 1, by omega⟩
          simp only [Block.work, hf, hr, List.foldr_cons, Nat.add_sub_cancel,
            Nat.add_mul, Nat.one_mul]
          omega

theorem work_stepAt {i : Instruction}
    (hi : b.lane.code[w.cursor]? = some i) (h : stepAt b w i = .next w') :
    b.work w' < b.work w := by
  have ahead := b.workFrom_succ_lt hi
  cases i with
  | barrier id lanes => simp only [stepAt] at h; split at h <;> cases h
  | pulse name duration => cases h; simp only [Block.work, advance]; omega
  | delay duration => cases h; simp only [Block.work, advance]; omega
  | store dest source => cases h; simp only [Block.work, advance]; omega
  | label name => cases h; simp only [Block.work, advance]; omega
  | sync => cases h; simp only [Block.work, advance]; omega
  | wait =>
    simp only [stepAt] at h
    split at h
    · cases h; simp only [Block.work, advance]; omega
    · cases h
  | gotoIf test target => cases h
  | compare test => cases h
  | loadCompare => cases h
  | loadRepeat count =>
    cases h
    have whole := b.workFrom_eq hi
    simp only [workOf] at whole
    simp only [Block.work, advance, List.foldr_cons]
    simp only [Block.workFrom] at whole ⊢
    omega
  | repeatFrom target => exact work_stepRepeat hi h
  | call target =>
    simp only [stepAt] at h
    split at h
    · rename_i position hp
      cases h
      have jump := b.workFrom_anti (le_of_firstLabel? hp)
      have whole := b.workFrom_eq hi
      simp only [workOf] at whole
      simp only [Block.work, List.foldr_cons]
      simp only [Block.workFrom] at whole jump ⊢
      omega
    · cases h
  | ret =>
    simp only [stepAt] at h
    split at h
    · rename_i position returns hr
      cases h
      simp only [Block.work, hr, List.foldr_cons]
      omega
    · cases h
  | goto target =>
    simp only [stepAt, stepGoto] at h
    split at h
    · rename_i position hp
      cases h
      have jump := b.workFrom_anti (le_of_firstLabel? hp)
      simp only [Block.work]
      omega
    · split at h <;> cases h

/-- Every step lowers the work that is left. -/
theorem work_step (h : step b w = .next w') : b.work w' < b.work w := by
  unfold step at h
  split at h
  · rename_i i hi
    exact work_stepAt hi h
  · split at h <;> cases h

end Work

/-- Walk to the end. -/
def run {τ : Type} [Clock τ] (b : Block) (w : Walk τ) : Except TimingError (Timing τ) :=
  match _h : step b w with
  | .halt result => result
  | .next w => run b w
termination_by b.work w
decreasing_by exact work_step _h

end Walk

/-- How long a block takes. -/
def Block.timing (b : Block) : Except TimingError Timing := Walk.run b b.start

/-- The stretch of a lane before the barrier of a rank; after the last barrier it is the rest of the
lane. -/
def Lane.block (lane : Lane) (rank : Nat) : Block :=
  let positions := lane.barrierPositions
  { lane
    first := if rank = 0 then 0 else positions.getD (rank - 1) lane.code.length + 1
    last := positions.getD rank lane.code.length
    rank }

/-- How long a lane takes up to its first barrier, or to its end if it has none. -/
def Lane.timing (lane : Lane) : Except TimingError Timing := (lane.block 0).timing

end Lockstep
