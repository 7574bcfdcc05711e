/-!
# JSON values

What this library writes as JSON. Members keep their order.
-/

set_option autoImplicit false

namespace Lockstep

/-- A JSON value. -/
inductive Json where
  | null
  | bool (value : Bool)
  | int (value : Int)
  | str (value : String)
  | arr (items : List Json)
  | obj (members : List (String × Json))

namespace Json

mutual

/-- How many arrays and objects stand inside one another in a value. -/
def nesting : Json → Nat
  | arr items => nestingOfItems items + 1
  | obj members => nestingOfMembers members + 1
  | _ => 0

/-- The deepest nesting among the items of an array. -/
def nestingOfItems : List Json → Nat
  | [] => 0
  | item :: items => max item.nesting (nestingOfItems items)

/-- The deepest nesting among the members of an object. -/
def nestingOfMembers : List (String × Json) → Nat
  | [] => 0
  | (_, value) :: members => max value.nesting (nestingOfMembers members)

end

/-- A natural number. -/
def ofNat (n : Nat) : Json := int n

/-- A list, each element written in the same way. -/
def ofList {α : Type} (write : α → Json) (xs : List α) : Json := arr (xs.map write)

/-- A value that may be missing. -/
def ofOption {α : Type} (write : α → Json) : Option α → Json
  | some x => write x
  | none => null

end Json

end Lockstep
