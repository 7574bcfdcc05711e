/-!
# Numerals

What numerals of all formats are made of: digits, and the exponent at the end.
-/

set_option autoImplicit false

namespace Lockstep.Numeral

/-- The value of a hexadecimal digit. -/
def hexDigit? (c : Char) : Option Nat :=
  if '0' ≤ c ∧ c ≤ '9' then some (c.toNat - '0'.toNat)
  else if 'a' ≤ c ∧ c ≤ 'f' then some (c.toNat - 'a'.toNat + 10)
  else if 'A' ≤ c ∧ c ≤ 'F' then some (c.toNat - 'A'.toNat + 10)
  else none

/-- One decimal digit or more, and nothing else. -/
def isDigits (cs : List Char) : Bool := !cs.isEmpty && cs.all Char.isDigit

/-- The number after the mark of an exponent. -/
def exponent? : List Char → Option Int
  | '+' :: digits => if isDigits digits then some (Nat.ofDigitChars 10 digits 0) else none
  | '-' :: digits => if isDigits digits then some (-(Nat.ofDigitChars 10 digits 0 : Int)) else none
  | digits => if isDigits digits then some (Nat.ofDigitChars 10 digits 0) else none

/-- The exponent that a numeral ends with; without one it is zero. -/
def ending? : List Char → Option Int
  | [] => some 0
  | c :: exponent => if c = 'e' ∨ c = 'E' then exponent? exponent else none

end Lockstep.Numeral
