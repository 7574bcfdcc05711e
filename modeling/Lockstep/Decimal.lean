/-!
# The range of decimal numerals

A numeral is out of range if the number it stands for is rounded to infinity, that is, if it reaches
the midpoint between the largest binary64 number and the next power of two. Two ways of rounding are
in use. `Decimal.isFinite` rounds the exact value once. `Decimal.fitsStepwise` keeps as many leading
digits as fit into a 64-bit word, rounds them, and multiplies them by the rounded power of ten; near
the end of the range the two may differ. Both compare natural numbers.
-/

set_option autoImplicit false

namespace Lockstep

/-- An unsigned decimal numeral: its digits before and after the point, and its exponent. -/
structure Decimal where
  whole : List Char
  fraction : List Char
  exponent : Int

namespace Decimal

/-- The least number that is rounded to infinity. -/
def infiniteFrom : Nat := Nat.pow 2 1024 - Nat.pow 2 970

/-- A number rounded to 53 significant binary digits; a tie goes to the even neighbour. -/
def roundToDouble (n : Nat) : Nat :=
  let unit := Nat.pow 2 (n.log2 - 52)
  let down := n / unit
  let rest := n % unit
  if 2 * rest < unit then down * unit
  else if unit < 2 * rest then (down + 1) * unit
  else (down + down % 2) * unit

/-- Append digits to a number as long as it fits into 64 bits; the digits that are left over. -/
def absorb : Nat → List Char → Nat × List Char
  | n, [] => (n, [])
  | n, c :: digits =>
    let next := 10 * n + (c.toNat - '0'.toNat)
    if next < UInt64.size then absorb next digits else (n, c :: digits)

/-- The leading digits that fit into 64 bits, and the power of ten that goes with them. -/
def leading (d : Decimal) : Nat × Int :=
  let (n, dropped) := absorb 0 d.whole
  let (significand, cut) := absorb n d.fraction
  (significand, dropped.length - (d.fraction.length - cut.length : Nat) + d.exponent)

/-- Whether the rounded leading digits times the rounded power of ten are in range. -/
def fitsStepwise (d : Decimal) : Bool :=
  let (significand, exponent) := d.leading
  significand == 0 || exponent < 0 ||
    (exponent ≤ 308 &&
      roundToDouble significand * roundToDouble (Nat.pow 10 exponent.toNat) < infiniteFrom)

/-- Whether the exact value is in range. -/
def isFinite (d : Decimal) : Bool :=
  let digits := d.whole ++ d.fraction
  let n := Nat.ofDigitChars 10 digits 0
  let exponent := d.exponent - d.fraction.length
  n == 0 || exponent + digits.length ≤ 0 ||
    (exponent ≤ 308 &&
      n * Nat.pow 10 exponent.toNat < infiniteFrom * Nat.pow 10 (-exponent).toNat)

end Decimal

end Lockstep
