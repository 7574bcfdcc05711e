import Lockstep.Comparison
import Lockstep.Duration

/-!
# Expressions

The expressions that tests and assignments are made of, their constant truth, and their program
text.
-/

set_option autoImplicit false

namespace Lockstep

/-- The arithmetic and logical operations on two operands. -/
inductive BinaryOp where
  | add
  | sub
  | mul
  | div
  | and
  | or
deriving DecidableEq

/-- The sign or word that stands for an operation in program text. -/
def BinaryOp.symbol : BinaryOp → String
  | add => "+"
  | sub => "-"
  | mul => "*"
  | div => "/"
  | and => "and"
  | or => "or"

/-- An expression. A call carries the duration of the pulse that it schedules. -/
inductive Expr where
  | bool (value : Bool)
  | int (value : Int64)
  | var (name : String)
  | call (callee : String) (args : List Expr) (duration : Duration)
  | not (inner : Expr)
  | compare (left : Expr) (relation : Relation) (right : Expr)
  | binary (left : Expr) (op : BinaryOp) (right : Expr)

/-- A call that stands as a statement or as a measured value. -/
structure Call where
  /-- What is called. -/
  callee : String
  /-- The arguments, in order. -/
  args : List Expr
  /-- How long the scheduled pulse takes. -/
  duration : Duration

/-- A call is an expression. -/
def Call.toExpr (c : Call) : Expr := .call c.callee c.args c.duration

namespace Expr

/-- The truth value of an expression that is a literal, or a negated one. -/
def constTruth? : Expr → Option Bool
  | bool value => some value
  | int value => some (value != 0)
  | not inner => inner.constTruth?.map (!·)
  | _ => none

mutual

/-- The program text of an expression. Binary operations are put in parentheses, comparisons and
negations are not. -/
def text : Expr → String
  | bool true => "True"
  | bool false => "False"
  | int value => toString value.toInt
  | var name => name
  | call callee args _ => callee ++ "(" ++ argsText args ++ ")"
  | not inner => "not " ++ inner.text
  | compare left relation right => left.text ++ " " ++ relation.symbol ++ " " ++ right.text
  | binary left op right => "(" ++ left.text ++ " " ++ op.symbol ++ " " ++ right.text ++ ")"

/-- The program text of a list of arguments. -/
def argsText : List Expr → String
  | [] => ""
  | [arg] => arg.text
  | arg :: args => arg.text ++ ", " ++ argsText args

end

end Expr

end Lockstep
