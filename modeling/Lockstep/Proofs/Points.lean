import Lockstep.Proofs.Lowered
import Lockstep.Proofs.Roster
import Mathlib.Algebra.Group.Nat.Defs
import Mathlib.Data.List.Forall2
import Mathlib.Data.Nat.Init

/-!
# Points of a lane

Every lane of a function has the same points, those of all meetings in order, whatever its own part
in them is. This needs lanes that are `Orderly`: no block stands in another one, and the blocks of a
lane are in ascending order. Blocks in groups of other lanes do not count.

A lane without nested blocks is a row of instructions and blocks (`piecesAll`), so its placed code
is that row with points put in (`Placement.layout`). What that comes to is `Laid`: the points in
order, and between the two points of a meeting the lane's own part of it. At the end this is said of
all lanes of a function.
-/

set_option autoImplicit false

namespace Lockstep

/-! ## Points -/

/-- A point of a lane: the trigger that starts it, or a barrier with the lanes that meet there. -/
inductive Point where
  | trigger
  | barrier (number : Nat) (members : List LaneId)
deriving DecidableEq

namespace Point

/-- The point before a meeting. -/
def start (initialWait : Bool) (k : Nat) (members : List LaneId) : Point :=
  if initialWait ∧ k = 0 then trigger else barrier (2 * k) members

/-- The point after a meeting. -/
def stop (k : Nat) (members : List LaneId) : Point := barrier (2 * k + 1) members

/-- The points of meetings in a row, which are numbered from `k` on. -/
def sequence (initialWait : Bool) (k : Nat) : Roster → List Point
  | [] => []
  | m :: ms => start initialWait k m.lanes :: stop k m.lanes :: sequence initialWait (k + 1) ms

end Point

/-- The point that an instruction is. -/
def Instruction.point? : Instruction → Option Point
  | .wait => some .trigger
  | .barrier id members => some (.barrier id.index.toNat members)
  | _ => none

/-- The instructions of a code that are points. -/
def points (code : List Instruction) : List Instruction := code.filter fun i => i.point?.isSome

@[simp]
theorem points_append (a b : List Instruction) : points (a ++ b) = points a ++ points b :=
  List.filter_append ..

/-- Code has no points exactly if none of its instructions is one. -/
theorem points_eq_nil_iff {code : List Instruction} :
    points code = [] ↔ ∀ i ∈ code, i.point? = none := by
  simp [points, List.filter_eq_nil_iff]

theorem filterMap_points (code : List Instruction) :
    (points code).filterMap Instruction.point? = code.filterMap Instruction.point? := by
  rw [points, List.filterMap_filter]
  congr 1
  funext i
  cases i.point? <;> rfl

/-! ## Idle lanes -/

namespace Placement

variable {p : Placement}

/-- A barrier is the point that its number and the lanes of its meeting say, if the number fits. -/
theorem point?_barrier {k number : Nat} {m : Meeting} (hm : p.roster[k]? = some m)
    (hfit : number < 2 ^ 32) : (p.barrier k number).point? = some (.barrier number m.lanes) := by
  rw [barrier, Instruction.point?, hm, UInt32.toNat_ofNat_of_lt' hfit]
  rfl

/-- The points that a placement makes, for meetings whose numbers fit. -/
theorem point?_startPoint {k : Nat} {m : Meeting} (hm : p.roster[k]? = some m)
    (hfit : p.roster.length < 2 ^ 31) :
    (p.startPoint k).point? = some (.start p.initialWait k m.lanes) := by
  have hk : k < p.roster.length := (List.getElem?_eq_some_iff.1 hm).1
  unfold startPoint Point.start
  split
  · rfl
  · exact point?_barrier hm (by omega)

/-- A meeting ends in a point with its number. -/
theorem point?_endPoint {k : Nat} {m : Meeting} (hm : p.roster[k]? = some m)
    (hfit : p.roster.length < 2 ^ 31) : (p.endPoint k).point? = some (.stop k m.lanes) := by
  have hk : k < p.roster.length := (List.getElem?_eq_some_iff.1 hm).1
  exact point?_barrier hm (by omega)

theorem isSome_startPoint (p : Placement) (k : Nat) : (p.startPoint k).point?.isSome = true := by
  unfold startPoint
  split <;> rfl

theorem points_startPoint (p : Placement) (k : Nat) (code : List Instruction) :
    points (p.startPoint k :: code) = p.startPoint k :: points code :=
  List.filter_cons_of_pos (p.isSome_startPoint k)

theorem points_endPoint (p : Placement) (k : Nat) (code : List Instruction) :
    points (p.endPoint k :: code) = p.endPoint k :: points code := rfl

theorem idle_self (p : Placement) (k : Nat) : p.idle k k = [] := by
  simp [idle]

/-- Meetings that are sat out in a row. -/
theorem idle_append {a b c : Nat} (hab : a ≤ b) (hbc : b ≤ c) :
    p.idle a b ++ p.idle b c = p.idle a c := by
  unfold idle
  rw [← List.flatMap_append]
  congr 1
  have hlast : b = a + 1 * (b - a) := by omega
  have hlength : c - a = (b - a) + (c - b) := by omega
  rw [hlength, ← List.range'_append, ← hlast]

/-- To sit one meeting out is to pass its two points. -/
theorem idle_succ (p : Placement) (k : Nat) :
    p.idle k (k + 1) = [p.startPoint k, p.endPoint k] := by
  simp [idle]

/-- The points of an idle lane are those of the meetings. -/
theorem point?_idle (hfit : p.roster.length < 2 ^ 31) (first n : Nat)
    (hn : first + n ≤ p.roster.length) :
    (p.idle first (first + n)).filterMap Instruction.point? =
      Point.sequence p.initialWait first ((p.roster.drop first).take n) := by
  induction n generalizing first with
  | zero => simp [idle_self, Point.sequence]
  | succ n ih =>
    have hlt : first < p.roster.length := by omega
    have hm : p.roster[first]? = some p.roster[first] := List.getElem?_eq_getElem hlt
    have hrest := ih (first + 1) (by omega)
    rw [Nat.add_right_comm, Nat.add_assoc] at hrest
    rw [← idle_append (Nat.le_add_right first 1) (by omega), idle_succ,
      List.drop_eq_getElem_cons hlt, List.take_succ_cons, Point.sequence, List.filterMap_append,
      hrest]
    simp [point?_startPoint hm hfit, point?_endPoint hm hfit]

end Placement

/-- A lane whose own blocks are in order, one after the other. -/
structure Orderly (lane : LaneId) (segments : List Segment) : Prop where
  /-- No block stands in another one. -/
  flat : ∀ part ∈ blockPartsAll (· = lane) segments, blockPartsAll (· = lane) part.body = []
  /-- The blocks are in ascending order. -/
  ascending : (blockPartsAll (· = lane) segments).Pairwise (·.block.index < ·.block.index)

/-! ## A lane as a row of pieces -/

/-- A piece of a lane without nested blocks. -/
inductive Piece where
  | op (i : Instruction)
  | block (id : BlockId) (code : List Instruction)

namespace Piece

/-- The instructions of a piece. -/
def code : Piece → List Instruction
  | op i => [i]
  | block _ code => code

/-- The block that a piece is. -/
def block? : Piece → Option (BlockId × List Instruction)
  | op _ => none
  | block id code => some (id, code)

end Piece

mutual

/-- The pieces of a segment in a lane. -/
def Segment.pieces (lane : LaneId) : Segment → List Piece
  | .op i => [.op i]
  | .concurrent block _ body => [.block block (inlineAll lane body)]
  | .group owner body => if owner = lane then piecesAll lane body else []

/-- The pieces of segments in a row. -/
def piecesAll (lane : LaneId) : List Segment → List Piece
  | [] => []
  | s :: rest => s.pieces lane ++ piecesAll lane rest

end

mutual

/-- The pieces of a segment are the code of it. -/
theorem Segment.code_pieces (lane : LaneId) : ∀ (s : Segment),
    (s.pieces lane).flatMap Piece.code = s.inline lane
  | .op i => by simp [Segment.pieces, Segment.inline, Piece.code]
  | .concurrent block lanes body => by simp [Segment.pieces, Piece.code, inline_concurrent]
  | .group owner body => by
    rw [Segment.pieces, Segment.inline]
    split
    · exact code_piecesAll lane body
    · rfl

/-- The pieces of a lane are its instructions. -/
theorem code_piecesAll (lane : LaneId) : ∀ (segments : List Segment),
    (piecesAll lane segments).flatMap Piece.code = inlineAll lane segments
  | [] => by simp [piecesAll]
  | s :: rest => by
    rw [piecesAll, List.flatMap_append, Segment.code_pieces lane s, code_piecesAll lane rest,
      inlineAll_cons]

end

mutual

/-- The blocks among the pieces of a segment are its own blocks, if none stands in another one. -/
theorem Segment.blocks_pieces (lane : LaneId) : ∀ (s : Segment),
    (∀ part ∈ s.blockParts (· = lane), blockPartsAll (· = lane) part.body = []) →
      (s.pieces lane).filterMap Piece.block? =
        (s.blockParts (· = lane)).map fun part => (part.block, inlineAll lane part.body)
  | .op i, _ => by simp [Segment.pieces, Segment.blockParts, Piece.block?]
  | .concurrent block lanes body, h => by
    rw [Segment.blockParts, List.forall_mem_cons] at h
    simp [Segment.pieces, Segment.blockParts, Piece.block?, h.1]
  | .group owner body, h => by
    rw [Segment.blockParts] at h
    rw [Segment.pieces, Segment.blockParts]
    by_cases howner : owner = lane
    · rw [if_pos (decide_eq_true howner)] at h ⊢
      rw [if_pos howner]
      exact blocks_piecesAll lane body h
    · rw [if_neg howner, if_neg (by simp [howner])]
      rfl

/-- The blocks among the pieces of a lane are its own blocks, if none stands in another one. -/
theorem blocks_piecesAll (lane : LaneId) : ∀ (segments : List Segment),
    (∀ part ∈ blockPartsAll (· = lane) segments, blockPartsAll (· = lane) part.body = []) →
      (piecesAll lane segments).filterMap Piece.block? =
        (blockPartsAll (· = lane) segments).map fun part => (part.block, inlineAll lane part.body)
  | [], _ => by simp [piecesAll]
  | s :: rest, h => by
    rw [blockPartsAll, List.forall_mem_append] at h
    rw [piecesAll, blockPartsAll, List.filterMap_append, List.map_append,
      Segment.blocks_pieces lane s h.1, blocks_piecesAll lane rest h.2]

end

namespace Placement

variable {p : Placement}

/-- Pieces of a lane with their points, when the meetings before `next` are over. -/
def layout (p : Placement) (next : Nat) : List Piece → List Instruction
  | [] => p.idle next p.roster.length
  | .op i :: rest => i :: layout p next rest
  | .block b code :: rest =>
    match p.roster.position? b with
    | none => layout p next rest
    | some k =>
      p.idle next k ++ p.startPoint k :: (code ++ p.endPoint k :: layout p (max next (k + 1)) rest)

mutual

/-- A segment without blocks of the lane is emitted as it is, and no meeting is passed in it. -/
theorem emit_of_blockParts_nil (p : Placement) : ∀ (s : Segment) (next : Nat),
    s.blockParts (· = p.lane) = [] → p.emit next s = (s.inline p.lane, next)
  | .op i, next, _ => by rw [emit, Segment.inline]
  | .concurrent block lanes body, next, h => by
    rw [Segment.blockParts] at h
    cases h
  | .group owner body, next, h => by
    rw [Segment.blockParts] at h
    rw [emit, Segment.inline]
    by_cases howner : owner = p.lane
    · rw [if_pos (decide_eq_true howner)] at h
      rw [if_pos howner, if_pos howner]
      exact emitAll_of_blockParts_nil p body next h
    · rw [if_neg howner, if_neg howner]

/-- A lane that takes part in no block has its instructions and no points. -/
theorem emitAll_of_blockParts_nil (p : Placement) : ∀ (segments : List Segment) (next : Nat),
    blockPartsAll (· = p.lane) segments = [] →
      p.emitAll next segments = (inlineAll p.lane segments, next)
  | [], next, _ => by rw [emitAll, inlineAll_nil]
  | s :: rest, next, h => by
    rw [blockPartsAll, List.append_eq_nil_iff] at h
    simp only [emitAll, emit_of_blockParts_nil p s next h.1,
      emitAll_of_blockParts_nil p rest next h.2, inlineAll_cons]

end

mutual

/-- A segment is emitted as its pieces are laid out. -/
theorem emit_layout (p : Placement) : ∀ (s : Segment) (next : Nat) (rest : List Piece),
    (∀ part ∈ s.blockParts (· = p.lane), blockPartsAll (· = p.lane) part.body = []) →
      (p.emit next s).1 ++ p.layout (p.emit next s).2 rest =
        p.layout next (s.pieces p.lane ++ rest)
  | .op i, next, rest, _ => by
    rw [emit, Segment.pieces]
    rfl
  | .concurrent block lanes body, next, rest, h => by
    rw [Segment.blockParts, List.forall_mem_cons] at h
    rw [emit, Segment.pieces, List.singleton_append, layout]
    cases p.roster.position? block with
    | none => rfl
    | some k => simp [emitAll_of_blockParts_nil p body _ h.1]
  | .group owner body, next, rest, h => by
    rw [Segment.blockParts] at h
    rw [emit, Segment.pieces]
    by_cases howner : owner = p.lane
    · rw [if_pos (decide_eq_true howner)] at h
      rw [if_pos howner, if_pos howner]
      exact emitAll_layout p body next rest h
    · rw [if_neg howner, if_neg howner]
      rfl

/-- So are segments in a row. -/
theorem emitAll_layout (p : Placement) : ∀ (segments : List Segment) (next : Nat)
    (rest : List Piece),
    (∀ part ∈ blockPartsAll (· = p.lane) segments, blockPartsAll (· = p.lane) part.body = []) →
      (p.emitAll next segments).1 ++ p.layout (p.emitAll next segments).2 rest =
        p.layout next (piecesAll p.lane segments ++ rest)
  | [], next, rest, _ => by
    rw [emitAll, piecesAll]
    rfl
  | s :: segments, next, rest, h => by
    rw [blockPartsAll, List.forall_mem_append] at h
    rw [piecesAll, List.append_assoc, ← emit_layout p s next _ h.1,
      ← emitAll_layout p segments _ rest h.2, emitAll, List.append_assoc]

end

/-- Without nested blocks the placed code is the row of pieces with points put in. -/
theorem code_eq_layout {segments : List Segment}
    (h : ∀ part ∈ blockPartsAll (· = p.lane) segments, blockPartsAll (· = p.lane) part.body = []) :
    p.code segments = p.layout 0 (piecesAll p.lane segments) := by
  have hlayout := p.emitAll_layout segments 0 [] h
  rwa [List.append_nil] at hlayout

/-! ## Laid code -/

/-- Code with the points of the meetings from `first` up to `last`, and between the two points of
each meeting what `own` has for it. -/
structure Laid (p : Placement) (own : Nat → List Instruction) (first last : Nat)
    (code : List Instruction) : Prop where
  le : first ≤ last
  points_eq : points code = p.idle first last
  framed : ∀ k, first ≤ k → k < last → ∃ before after,
    code = before ++ p.startPoint k :: (own k ++ p.endPoint k :: after) ∧
      points before = p.idle first k

namespace Laid

variable {own : Nat → List Instruction} {a b c : Nat} {code code' : List Instruction}

/-- Code without points is laid for no meeting. -/
theorem of_points_nil (a : Nat) (h : points code = []) : p.Laid own a a code where
  le := Nat.le_refl a
  points_eq := by rw [h, idle_self]
  framed k hle hlt := by omega

/-- Code laid up to a meeting and code laid from it on make up laid code. -/
theorem append (h : p.Laid own a b code) (h' : p.Laid own b c code') :
    p.Laid own a c (code ++ code') where
  le := Nat.le_trans h.le h'.le
  points_eq := by rw [points_append, h.points_eq, h'.points_eq, idle_append h.le h'.le]
  framed k hle hlt := by
    rcases Nat.lt_or_ge k b with hk | hk
    · obtain ⟨before, after, rfl, hbefore⟩ := h.framed k hle hk
      exact ⟨before, after ++ code', by simp, hbefore⟩
    · obtain ⟨before, after, rfl, hbefore⟩ := h'.framed k hk hlt
      refine ⟨code ++ before, after, by simp, ?_⟩
      rw [points_append, h.points_eq, hbefore, idle_append h.le hk]

/-- The two points of a meeting around the lane's part of it. -/
theorem meeting {k : Nat} (h : points (own k) = []) :
    p.Laid own k (k + 1) (p.startPoint k :: (own k ++ [p.endPoint k])) where
  le := Nat.le_succ k
  points_eq := by
    rw [points_startPoint, points_append, h, points_endPoint, idle_succ]
    rfl
  framed j hle hlt := by
    obtain rfl : j = k := by omega
    exact ⟨[], [], rfl, (p.idle_self j).symm⟩

/-- A lane that sits meetings out. -/
theorem idle (hab : a ≤ b) (h : ∀ k, a ≤ k → k < b → own k = []) :
    p.Laid own a b (p.idle a b) := by
  induction b, hab using Nat.le_induction with
  | base =>
    rw [idle_self]
    exact of_points_nil a rfl
  | succ b hab ih =>
    have hown : own b = [] := h b hab (Nat.lt_succ_self b)
    have hlast : p.Laid own b (b + 1) (p.startPoint b :: (own b ++ [p.endPoint b])) :=
      meeting (by rw [hown]; rfl)
    rw [← idle_append hab (Nat.le_succ b), idle_succ]
    rw [hown] at hlast
    exact (ih fun k hle hlt => h k hle (Nat.lt_succ_of_lt hlt)).append hlast

/-- Only what there is for the meetings in range matters. -/
theorem congr {own' : Nat → List Instruction} (h : p.Laid own a b code)
    (heq : ∀ k, a ≤ k → k < b → own k = own' k) : p.Laid own' a b code where
  le := h.le
  points_eq := h.points_eq
  framed k hle hlt := by
    rw [← heq k hle hlt]
    exact h.framed k hle hlt

end Laid

/-! ## Pieces in order -/

/-- Pieces whose blocks have their meetings in order, from `next` on. -/
inductive Fits (p : Placement) : Nat → List Piece → Prop
  | nil {next : Nat} : Fits p next []
  | op {next : Nat} {i : Instruction} {rest : List Piece} (hi : points [i] = [])
      (hrest : Fits p next rest) : Fits p next (.op i :: rest)
  | block {next k : Nat} {b : BlockId} {code : List Instruction} {rest : List Piece}
      (hcode : points code = []) (hk : p.roster.position? b = some k) (hnext : next ≤ k)
      (hrest : Fits p (k + 1) rest) : Fits p next (.block b code :: rest)

/-- What the pieces of a lane have for a meeting. -/
def ownAt (p : Placement) : List Piece → Nat → List Instruction
  | [], _ => []
  | .op _ :: rest, k => ownAt p rest k
  | .block b code :: rest, k => if p.roster.position? b = some k then code else ownAt p rest k

/-- A block has nothing for meetings other than its own. -/
theorem ownAt_block_of_ne {b : BlockId} {code : List Instruction} {rest : List Piece} {j k : Nat}
    (hk : p.roster.position? b = some k) (hne : k ≠ j) :
    p.ownAt (.block b code :: rest) j = p.ownAt rest j := by
  rw [ownAt, if_neg]
  intro hsame
  exact hne (Option.some.inj (hk.symm.trans hsame))

/-- A lane has nothing for the meeting of a block that it has no part in. -/
theorem ownAt_eq_nil {pieces : List Piece} {k : Nat}
    (h : ∀ own ∈ pieces.filterMap Piece.block?, p.roster.position? own.1 ≠ some k) :
    p.ownAt pieces k = [] := by
  induction pieces with
  | nil => rfl
  | cons piece rest ih =>
    cases piece with
    | op i => exact ih h
    | block b code =>
      simp only [List.filterMap_cons, Piece.block?, List.forall_mem_cons] at h
      rw [ownAt, if_neg h.1, ih h.2]

namespace Fits

variable {pieces : List Piece} {next : Nat}

/-- Blocks that fit have their meetings from the next one on. -/
theorem le_position (h : p.Fits next pieces) :
    ∀ own ∈ pieces.filterMap Piece.block?, ∃ k, p.roster.position? own.1 = some k ∧ next ≤ k := by
  induction h with
  | nil => simp
  | op _ _ ih => exact ih
  | block _ hk hnext _ ih =>
    simp only [List.filterMap_cons, Piece.block?, List.forall_mem_cons]
    refine ⟨⟨_, hk, hnext⟩, ?_⟩
    intro own hown
    obtain ⟨k', hk', hle⟩ := ih own hown
    exact ⟨k', hk', by omega⟩

/-- The meetings before are none of the pieces'. -/
theorem ownAt_of_lt (h : p.Fits next pieces) {k : Nat} (hk : k < next) : p.ownAt pieces k = [] := by
  apply ownAt_eq_nil
  intro own hown hpos
  obtain ⟨j, hj, hle⟩ := h.le_position own hown
  rw [hpos] at hj
  cases hj
  omega

/-- The piece for the meeting of a block is the code of the block. -/
theorem ownAt_of_mem (h : p.Fits next pieces) {b : BlockId} {code : List Instruction} {k : Nat}
    (hb : (b, code) ∈ pieces.filterMap Piece.block?) (hk : p.roster.position? b = some k) :
    p.ownAt pieces k = code := by
  induction h with
  | nil => simp at hb
  | op _ _ ih => exact ih hb
  | @block next j b' code' rest _ hj _ hrest ih =>
    simp only [List.filterMap_cons, Piece.block?, List.mem_cons, Prod.mk.injEq] at hb
    rcases hb with ⟨rfl, rfl⟩ | hb
    · rw [ownAt, if_pos hk]
    · -- A later block has a later meeting.
      obtain ⟨k', hk', hle⟩ := hrest.le_position _ hb
      have hlater : k = k' := Option.some.inj (hk.symm.trans hk')
      rw [ownAt_block_of_ne hj (by omega), ih hb]

/-- Pieces in order are laid out with the points of all meetings. -/
theorem laid (h : p.Fits next pieces) (hnext : next ≤ p.roster.length) :
    p.Laid (p.ownAt pieces) next p.roster.length (p.layout next pieces) := by
  induction h with
  | nil => exact Laid.idle hnext fun _ _ _ => rfl
  | @op next i rest hi _ ih => exact (Laid.of_points_nil next hi).append (ih hnext)
  | @block next k b code rest hcode hk hle hrest ih =>
    -- The lane sits out the meetings before its next block, is in that one, and goes on after it.
    have hlt : k < p.roster.length := Roster.lt_of_position? hk
    have hown : p.ownAt (.block b code :: rest) k = code := by rw [ownAt, if_pos hk]
    have hbefore : p.Laid (p.ownAt (.block b code :: rest)) next k (p.idle next k) := by
      refine Laid.idle hle ?_
      intro j _ hj
      rw [ownAt_block_of_ne hk (Nat.ne_of_gt hj), hrest.ownAt_of_lt (Nat.lt_succ_of_lt hj)]
    have hmeeting := Laid.meeting (p := p) (k := k) (hown.symm ▸ hcode)
    have hafter : p.Laid (p.ownAt (.block b code :: rest)) (k + 1) p.roster.length
        (p.layout (k + 1) rest) := by
      refine (ih hlt).congr ?_
      intro j hj _
      rw [ownAt_block_of_ne hk (Nat.ne_of_lt hj)]
    rw [hown] at hmeeting
    have hall := hbefore.append (hmeeting.append hafter)
    rw [layout, hk]
    simpa [Nat.max_eq_right (Nat.le_succ_of_le hle)] using hall

end Fits

/-- Blocks in ascending order have their meetings in order. -/
theorem fits_of_ascending (hroster : p.roster.Ascending) {pieces : List Piece} {next : Nat}
    (hfree : ∀ piece ∈ pieces, points piece.code = [])
    (hascending : (pieces.filterMap Piece.block?).Pairwise (·.1.index < ·.1.index))
    (hpos : ∀ own ∈ pieces.filterMap Piece.block?,
      ∃ k, p.roster.position? own.1 = some k ∧ next ≤ k) :
    p.Fits next pieces := by
  induction pieces generalizing next with
  | nil => exact .nil
  | cons piece rest ih =>
    rw [List.forall_mem_cons] at hfree
    cases piece with
    | op i => exact .op hfree.1 (ih hfree.2 hascending hpos)
    | block b code =>
      simp only [List.filterMap_cons, Piece.block?, List.forall_mem_cons,
        List.pairwise_cons] at hascending hpos
      obtain ⟨⟨k, hk, hle⟩, hothers⟩ := hpos
      refine .block hfree.1 hk hle (ih hfree.2 hascending.2 ?_)
      intro own hown
      obtain ⟨j, hj, -⟩ := hothers own hown
      exact ⟨j, hj, hroster.position?_lt hk hj (hascending.1 own hown)⟩

section Code

variable {segments : List Segment}

/-- The pieces of an orderly lane fit. -/
theorem fits_piecesAll (hroster : p.roster.Ascending)
    (hhas : ∀ d ∈ blockPartsAll (· = p.lane) segments, p.roster.Has d.block)
    (horderly : Orderly p.lane segments) (hops : points (inlineAll p.lane segments) = []) :
    p.Fits 0 (piecesAll p.lane segments) := by
  apply fits_of_ascending hroster
  · intro piece hpiece
    rw [← code_piecesAll] at hops
    refine points_eq_nil_iff.2 fun i hi => points_eq_nil_iff.1 hops i ?_
    exact List.mem_flatMap.2 ⟨piece, hpiece, hi⟩
  · rw [blocks_piecesAll p.lane segments horderly.flat]
    exact List.pairwise_map.2 horderly.ascending
  · rw [blocks_piecesAll p.lane segments horderly.flat]
    intro own hown
    obtain ⟨part, hpart, rfl⟩ := List.mem_map.1 hown
    obtain ⟨k, hk⟩ := (hhas part hpart).position?
    exact ⟨k, hk, Nat.zero_le k⟩

/-- The code of an orderly lane is laid for all meetings. -/
theorem laid_code (hroster : p.roster.Ascending)
    (hhas : ∀ d ∈ blockPartsAll (· = p.lane) segments, p.roster.Has d.block)
    (horderly : Orderly p.lane segments) (hops : points (inlineAll p.lane segments) = []) :
    p.Laid (p.ownAt (piecesAll p.lane segments)) 0 p.roster.length (p.code segments) := by
  rw [code_eq_layout horderly.flat]
  exact (fits_piecesAll hroster hhas horderly hops).laid (Nat.zero_le _)

end Code

end Placement

/-! ## Symmetric lanes -/

/-- All that stands between the two points of the meeting `k` in a code is `own`, and before them
stand the points of the meetings before. -/
def FramedAt (initialWait : Bool) (meetings : Roster) (k : Nat) (members : List LaneId)
    (own code : List Instruction) : Prop :=
  ∃ before start stop after, code = before ++ start :: (own ++ stop :: after) ∧
    before.filterMap Instruction.point? = Point.sequence initialWait 0 (meetings.take k) ∧
    start.point? = some (.start initialWait k members) ∧ stop.point? = some (.stop k members)

/-- In laid code, the points of a meeting are around the lane's part of it. -/
theorem Placement.Laid.framedAt {p : Placement} {own : Nat → List Instruction}
    {code : List Instruction} (h : p.Laid own 0 p.roster.length code)
    (hfit : p.roster.length < 2 ^ 31) {k : Nat} {m : Meeting} (hm : p.roster[k]? = some m) :
    FramedAt p.initialWait p.roster k m.lanes (own k) code := by
  have hk : k < p.roster.length := (List.getElem?_eq_some_iff.1 hm).1
  obtain ⟨before, after, hcode, hbefore⟩ := h.framed k (Nat.zero_le k) hk
  refine ⟨before, _, _, after, hcode, ?_, point?_startPoint hm hfit, point?_endPoint hm hfit⟩
  have hidle := point?_idle hfit 0 k (by omega)
  rw [Nat.zero_add, List.drop_zero] at hidle
  rw [← filterMap_points, hbefore, hidle]

/-- All lanes of a function have the same points: those of its meetings, one for each block that is
declared anywhere, in ascending order. Between the two points of a block stands the lane's own part
of it, and nothing if the lane has none. -/
theorem placeBarriers_symmetric (initialWait : Bool) (lanes : List (LaneId × List Segment))
    (hops : ∀ lane ∈ lanes, ∀ i ∈ inlineAll lane.1 lane.2, i.point? = none)
    (horderly : ∀ lane ∈ lanes, Orderly lane.1 lane.2)
    (hfew : ((declarations lanes).map BlockPart.block).dedup.length < 2 ^ 31) :
    ∃ meetings : Roster, meetings.Gathers (declarations lanes) ∧
      List.Forall₂ (fun lane placed => placed.id = lane.1 ∧
          placed.code.filterMap Instruction.point? = Point.sequence initialWait 0 meetings ∧
          ∀ (k : Nat) (m : Meeting), meetings[k]? = some m →
            (∀ part ∈ blockPartsAll (· = lane.1) lane.2, part.block = m.block →
              FramedAt initialWait meetings k m.lanes (inlineAll lane.1 part.body) placed.code) ∧
            ((∀ part ∈ blockPartsAll (· = lane.1) lane.2, part.block ≠ m.block) →
              FramedAt initialWait meetings k m.lanes [] placed.code))
        lanes (placeBarriers initialWait lanes) := by
  have hgathers := Roster.gathers_ofLanes lanes
  refine ⟨Roster.ofLanes lanes, hgathers, ?_⟩
  have hfit : (Roster.ofLanes lanes).length < 2 ^ 31 := by rwa [hgathers.length_eq]
  unfold placeBarriers
  refine List.forall₂_map_right_iff.2 (List.forall₂_same.2 ?_)
  intro lane hlane
  have hhas := Roster.ofLanes_has hlane fun owner => owner = lane.1
  have hnone := points_eq_nil_iff.2 (hops lane hlane)
  have hfits := Placement.fits_piecesAll (p := ⟨lane.1, Roster.ofLanes lanes, initialWait⟩)
    hgathers.ascending hhas (horderly lane hlane) hnone
  have hlaid := Placement.laid_code (p := ⟨lane.1, Roster.ofLanes lanes, initialWait⟩)
    hgathers.ascending hhas (horderly lane hlane) hnone
  have hblocks := blocks_piecesAll lane.1 lane.2 (horderly lane hlane).flat
  refine ⟨rfl, ?_, ?_⟩
  · have hidle := Placement.point?_idle (p := ⟨lane.1, Roster.ofLanes lanes, initialWait⟩) hfit 0
      (Roster.ofLanes lanes).length (Nat.le_of_eq (Nat.zero_add _))
    rw [Nat.zero_add, List.drop_zero, List.take_length] at hidle
    rw [← filterMap_points, hlaid.points_eq, hidle]
  · intro k m hm
    have hframed := hlaid.framedAt hfit hm
    have hpos := hgathers.ascending.position?_eq hm
    constructor
    · rintro part hpart hsame
      have hmem : (part.block, inlineAll lane.1 part.body) ∈
          (piecesAll lane.1 lane.2).filterMap Piece.block? := by
        rw [hblocks]
        exact List.mem_map.2 ⟨part, hpart, rfl⟩
      rwa [hfits.ownAt_of_mem hmem (hsame ▸ hpos)] at hframed
    · intro hnone
      rwa [Placement.ownAt_eq_nil] at hframed
      rw [hblocks]
      intro own hown hsame
      obtain ⟨part, hpart, rfl⟩ := List.mem_map.1 hown
      obtain ⟨m', hm', hblock⟩ := Roster.getElem?_of_position? hsame
      cases hm.symm.trans hm'
      exact hnone part hpart hblock.symm

/-- Three lanes with three blocks: one block is declared in a group of another lane only, and one
lane takes part in none. -/
def sharedLanes : List (LaneId × List Segment) :=
  [(⟨0⟩, [.op (.pulse "A" (.clamp 5)), .concurrent ⟨2⟩ [⟨1⟩, ⟨0⟩] [.op (.pulse "B" (.clamp 7))],
      .group ⟨1⟩ [.concurrent ⟨1⟩ [⟨2⟩, ⟨2⟩] []]]),
    (⟨1⟩, [.group ⟨1⟩ [.concurrent ⟨2⟩ [⟨2⟩] [], .concurrent ⟨9⟩ [⟨1⟩] [.op .ret]]]),
    (⟨2⟩, [])]

theorem placeBarriers_sharedLanes :
    ∃ meetings : Roster, meetings.Gathers (declarations sharedLanes) ∧
      (∀ placed ∈ placeBarriers true sharedLanes,
        placed.code.filterMap Instruction.point? = Point.sequence true 0 meetings) := by
  have horderly : ∀ lane ∈ sharedLanes, Orderly lane.1 lane.2 := by
    intro lane hlane
    simp only [sharedLanes, List.mem_cons, List.not_mem_nil, or_false] at hlane
    rcases hlane with rfl | rfl | rfl <;> exact ⟨by decide, by decide⟩
  obtain ⟨meetings, hgathers, hlanes⟩ :=
    placeBarriers_symmetric true sharedLanes (by decide) horderly (by decide)
  refine ⟨meetings, hgathers, ?_⟩
  intro placed hplaced
  obtain ⟨i, hi, rfl⟩ := List.getElem_of_mem hplaced
  exact (hlanes.get (hlanes.length_eq ▸ hi) hi).2.1

end Lockstep
