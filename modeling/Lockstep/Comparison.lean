/-!
# Comparisons

A runtime test compares a named value of the controller with a literal.
-/

set_option autoImplicit false

namespace Lockstep

/-- How two integers may be compared. -/
inductive Relation where
  | eq
  | ne
  | gt
  | lt
  | ge
  | le
deriving DecidableEq

namespace Relation

/-- All relations, in the order in which they are numbered. -/
def all : List Relation := [eq, ne, gt, lt, ge, le]

/-- The relation that holds exactly when the given one does not. -/
def inverse : Relation → Relation
  | eq => ne
  | ne => eq
  | gt => le
  | le => gt
  | lt => ge
  | ge => lt

/-- The sign that stands for a relation in program text. -/
def symbol : Relation → String
  | eq => "=="
  | ne => "!="
  | gt => ">"
  | lt => "<"
  | ge => ">="
  | le => "<="

end Relation

/-- A test of a named runtime value against a literal. -/
structure Comparison where
  /-- The name of the value. -/
  operand : String
  /-- How it is compared. -/
  relation : Relation
  /-- What it is compared with. -/
  value : Int64
deriving DecidableEq

namespace Comparison

/-- The test that holds exactly when the given one does not. -/
def inverse (c : Comparison) : Comparison := { c with relation := c.relation.inverse }

/-- Tests are written `operand symbol literal`. -/
def text (c : Comparison) : String :=
  c.operand ++ " " ++ c.relation.symbol ++ " " ++ toString c.value.toInt

end Comparison

end Lockstep
