import Lockstep.Datum
import Lockstep.Decimal
import Lockstep.Numeral

/-!
# What plain scalars stand for

A plain scalar is `null`, a truth value, a number or a text by its spelling. Integers may be
decimal, hexadecimal, octal or binary. One that fits into 128 bits and not into 64 is a flaw; a
longer decimal one is a number like one with a point or an exponent. A scalar that would be infinite
is a text.
-/

set_option autoImplicit false

namespace Lockstep.Yaml

/-- The number that digits of a base stand for. -/
def digitsOf? (base : Nat) (digits : List Char) : Option Nat :=
  if digits.isEmpty then none
  else digits.foldlM
    (fun n c => (Numeral.hexDigit? c).bind fun d => if d < base then some (n * base + d) else none)
    0

/-- Whether digits start with a superfluous zero; such a scalar is no number. -/
def isPadded (digits : List Char) : Bool :=
  1 < digits.length && digits.head? == some '0' && digits.all Char.isDigit

/-- The number that an unsigned numeral stands for. -/
def unsigned? : List Char → Option Nat
  | '0' :: 'x' :: digits => digitsOf? 16 digits
  | '0' :: 'o' :: digits => digitsOf? 8 digits
  | '0' :: 'b' :: digits => digitsOf? 2 digits
  | digits => if isPadded digits then none else digitsOf? 10 digits

/-- A numeral without its plus sign. -/
def dropPlus : List Char → List Char
  | '+' :: cs => cs
  | cs => cs

/-- An integer that is not negative, within 64 bits. -/
def natural? (text : String) : Option Nat :=
  match unsigned? (dropPlus text.toList) with
  | some n => if n < UInt64.size then some n else none
  | none => none

/-- An integer. -/
def integer? : List Char → Option Datum
  | '-' :: cs =>
    match unsigned? cs with
    | none => none
    | some n =>
      if n ≤ Nat.pow 2 63 then some (.neg n)
      else if n ≤ Nat.pow 2 127 then some .flaw
      else none
  | cs =>
    match unsigned? (dropPlus cs) with
    | none => none
    | some n =>
      if n < UInt64.size then some (.nat n)
      else if n < Nat.pow 2 128 then some .flaw
      else none

/-- Digits with at most one point among them, and perhaps an exponent. -/
def decimal? (cs : List Char) : Option Decimal :=
  let whole := cs.takeWhile Char.isDigit
  let tail := cs.dropWhile Char.isDigit
  let point := tail.head? == some '.'
  let rest := if point then tail.drop 1 else tail
  let fraction := if point then rest.takeWhile Char.isDigit else []
  if whole.isEmpty && fraction.isEmpty then none
  else
    (Numeral.ending? (rest.drop fraction.length)).map fun exponent => ⟨whole, fraction, exponent⟩

/-- The spellings of infinity and of no number. -/
def specialReals : List String :=
  [".inf", ".Inf", ".INF", "+.inf", "+.Inf", "+.INF", "-.inf", "-.Inf", "-.INF", ".nan", ".NaN",
    ".NAN"]

/-- A numeral without its sign. -/
def dropSign : List Char → List Char
  | '-' :: cs => cs
  | cs => dropPlus cs

/-- Whether a scalar is a number with a point or an exponent, or a very long one. -/
def isReal (cs : List Char) : Bool :=
  !isPadded (dropSign cs) && (decimal? (dropSign cs)).any Decimal.isFinite

/-- The truth value of a scalar. -/
def truth? (text : String) : Option Bool :=
  if text ∈ ["true", "True", "TRUE"] then some true
  else if text ∈ ["false", "False", "FALSE"] then some false
  else none

/-- What a plain scalar stands for by its spelling. -/
def resolve (text : String) : Datum :=
  if text ∈ ["", "~", "null", "Null", "NULL"] then .null
  else
    match truth? text, integer? text.toList with
    | some value, _ => .bool value
    | none, some d => d
    | none, none =>
      if text ∈ specialReals ∨ isReal text.toList then .real else .text text

end Lockstep.Yaml
