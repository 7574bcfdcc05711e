/-!
# Labels

A label is the name of a jump target. Labels are handed out by a `LabelSupply`: one request gives a
label for each of its stems, all with one index that no other request has, so that the labels of one
construct are recognised as a group.
-/

set_option autoImplicit false

namespace Lockstep

/-- The first element of a list that occurs before it in the list or among `seen`. -/
def firstRepeated? {α : Type} [DecidableEq α] (seen : List α) : List α → Option α
  | [] => none
  | x :: rest => if x ∈ seen then some x else firstRepeated? (x :: seen) rest

/-- The name of a jump target. -/
structure Label where
  /-- The full name. -/
  name : String
deriving DecidableEq

/-- The label of a stem at an index: `stem_index`. -/
def Label.indexed (stem : String) (index : Nat) : Label := ⟨stem ++ "_" ++ toString index⟩

/-- Why a request for labels is refused. -/
inductive LabelError where
  /-- Two stems of one request are equal, so their labels would collide. -/
  | repeatedStem (stem : String)
deriving DecidableEq

/-- The text of a refusal. -/
def LabelError.message : LabelError → String
  | .repeatedStem stem => "Duplicate label prefix '" ++ stem ++ "' in one allocation"

/-- A source of fresh indices: those below `next` are taken. An index is a 32-bit word, so a supply
stands for one that hands out fewer than `2 ^ 32` indices: `next` is a number without a bound and
never starts over. -/
structure LabelSupply where
  /-- The next index to hand out. -/
  next : Nat
deriving DecidableEq

namespace LabelSupply

/-- A supply of which nothing is taken. -/
def fresh : LabelSupply := ⟨0⟩

/-- Take the next index. -/
def takeIndex (supply : LabelSupply) : Nat × LabelSupply := (supply.next, ⟨supply.next + 1⟩)

/-- Take one index for a list of stems: the labels, and the supply after that. Equal stems are
refused, and then nothing is taken. -/
def takeLabels (supply : LabelSupply) (stems : List String) :
    Except LabelError (List Label) × LabelSupply :=
  match firstRepeated? [] stems with
  | some stem => (.error (.repeatedStem stem), supply)
  | none =>
    let (index, supply) := supply.takeIndex
    (.ok (stems.map (Label.indexed · index)), supply)

end LabelSupply

end Lockstep
