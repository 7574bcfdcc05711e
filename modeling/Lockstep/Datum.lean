/-!
# Data

What a text says before it is known what it is meant to be. Keys are data themselves, because in
some formats a key may be a number. A text can also be well formed and say nothing: half of a
surrogate pair, a number that no machine number comes near, containers nested too deep. Such a
`Datum.flaw` does no harm where nobody looks at it, and no reader accepts it.
-/

set_option autoImplicit false

namespace Lockstep

/-- What a text says. -/
inductive Datum where
  | null
  | bool (value : Bool)
  /-- A whole number without a minus sign. -/
  | nat (value : Nat)
  /-- A whole number of the given size after a minus sign. -/
  | neg (size : Nat)
  /-- Any other number. -/
  | real
  | text (value : String)
  | seq (items : List Datum)
  | map (entries : List (Datum × Datum))
  /-- Something well formed that stands for no value. -/
  | flaw

namespace Datum

mutual

/-- How many containers stand inside one another. -/
def nesting : Datum → Nat
  | seq items => nestingOfItems items + 1
  | map entries => nestingOfEntries entries + 1
  | _ => 0

/-- The deepest nesting among items. -/
def nestingOfItems : List Datum → Nat
  | [] => 0
  | item :: items => max item.nesting (nestingOfItems items)

/-- The deepest nesting among entries. -/
def nestingOfEntries : List (Datum × Datum) → Nat
  | [] => 0
  | (key, value) :: entries => max (max key.nesting value.nesting) (nestingOfEntries entries)

end

mutual

/-- Whether there is no flaw anywhere. -/
def isSound : Datum → Bool
  | flaw => false
  | seq items => areSound items
  | map entries => entriesAreSound entries
  | _ => true

/-- Whether there is no flaw in any item. -/
def areSound : List Datum → Bool
  | [] => true
  | item :: items => item.isSound && areSound items

/-- Whether there is no flaw in any key or value. -/
def entriesAreSound : List (Datum × Datum) → Bool
  | [] => true
  | (key, value) :: entries => key.isSound && value.isSound && entriesAreSound entries

end

end Datum

end Lockstep
