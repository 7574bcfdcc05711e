import Lockstep.Decimal
import Lockstep.Numeral

/-!
# JSON tokens

The lexical layer of JSON: the text of each token, and the scanner that takes the first token off a
text. A string is scanned in two rounds: `Token.scanUnits` reads characters and escapes up to the
closing quote, and `Token.joinUnits` puts surrogate pairs together. A string with a lone surrogate
and a number out of range are tokens, but tokens without a value.
-/

set_option autoImplicit false

namespace Lockstep.Json

/-- A token of JSON text. -/
inductive Token where
  | openArr
  | closeArr
  | openObj
  | closeObj
  | comma
  | colon
  | null
  | bool (value : Bool)
  /-- A number written with digits only. -/
  | nat (value : Nat)
  /-- A number of the given size, not zero, written with a minus sign and digits. -/
  | neg (size : Nat)
  /-- Any other number within range. -/
  | real
  /-- A number out of range. -/
  | unbounded
  | str (value : String)
  /-- A string with a lone surrogate. -/
  | broken
deriving DecidableEq

namespace Token

/-- Blanks may stand between tokens. -/
def isBlank (c : Char) : Bool := c == ' ' || c == '\n' || c == '\t' || c == '\r'

/-! ## Strings -/

/-- One unit of the inside of a string: a character that stands for itself, or an escaped code. -/
inductive StringUnit where
  | char (c : Char)
  | code (n : Nat)
deriving DecidableEq

/-- The code of four hexadecimal digits. -/
def hexCode? (a b c d : Char) : Option Nat := do
  let a ← Numeral.hexDigit? a
  let b ← Numeral.hexDigit? b
  let c ← Numeral.hexDigit? c
  let d ← Numeral.hexDigit? d
  return ((a * 16 + b) * 16 + c) * 16 + d

/-- The character that a one-letter escape stands for. -/
def simpleEscape? : Char → Option Char
  | '"' => some '"'
  | '\\' => some '\\'
  | '/' => some '/'
  | 'b' => some '\x08'
  | 'f' => some '\x0c'
  | 'n' => some '\n'
  | 'r' => some '\r'
  | 't' => some '\t'
  | _ => none

/-- The inside of a string up to its closing quote, and the text after it. Control characters must
be escaped. -/
def scanUnits : List Char → Option (List StringUnit × List Char)
  | [] => none
  | '"' :: rest => some ([], rest)
  | '\\' :: 'u' :: a :: b :: c :: d :: rest =>
    match hexCode? a b c d, scanUnits rest with
    | some n, some (units, rest) => some (.code n :: units, rest)
    | _, _ => none
  | '\\' :: e :: rest =>
    match simpleEscape? e, scanUnits rest with
    | some c, some (units, rest) => some (.char c :: units, rest)
    | _, _ => none
  | c :: rest =>
    if c.toNat < 0x20 ∨ c = '\\' then none
    else
      match scanUnits rest with
      | some (units, rest) => some (.char c :: units, rest)
      | none => none

/-- The characters that string units stand for. A code from the upper surrogates needs one from the
lower surrogates right after it, and the two make one character. -/
def joinUnits : List StringUnit → Option (List Char)
  | [] => some []
  | .char c :: units => (joinUnits units).map (c :: ·)
  | .code high :: .code low :: units =>
    if 0xD800 ≤ high ∧ high < 0xDC00 then
      if 0xDC00 ≤ low ∧ low < 0xE000 then
        (joinUnits units).map
          (Char.ofNat (0x10000 + (high - 0xD800) * 0x400 + (low - 0xDC00)) :: ·)
      else none
    else if 0xDC00 ≤ high ∧ high < 0xE000 then none
    else (joinUnits (.code low :: units)).map (Char.ofNat high :: ·)
  | .code n :: units =>
    if 0xD800 ≤ n ∧ n < 0xE000 then none
    else (joinUnits units).map (Char.ofNat n :: ·)

/-- The token of a string with the given units. -/
def ofUnits (units : List StringUnit) : Token :=
  match joinUnits units with
  | some chars => .str (String.ofList chars)
  | none => .broken

/-- The string that starts right after an opening quote, and the text after its closing quote. -/
def scanString (text : List Char) : Option (Token × List Char) :=
  (scanUnits text).map fun (units, rest) => (ofUnits units, rest)

/-- The digits `0` to `f`. -/
def hexChar (n : Nat) : Char := if n < 10 then Char.ofNat (48 + n) else Char.ofNat (87 + n)

/-- A character inside a string. Quotes, backslashes and control characters are escaped. -/
def escapedChar (c : Char) : List Char :=
  if c = '"' then ['\\', '"']
  else if c = '\\' then ['\\', '\\']
  else if c = '\x08' then ['\\', 'b']
  else if c = '\x0c' then ['\\', 'f']
  else if c = '\n' then ['\\', 'n']
  else if c = '\r' then ['\\', 'r']
  else if c = '\t' then ['\\', 't']
  else if c.toNat < 0x20 then
    ['\\', 'u', '0', '0', hexChar (c.toNat / 16), hexChar (c.toNat % 16)]
  else [c]

/-- A string between quotes. -/
def quoted (s : String) : List Char := '"' :: s.toList.flatMap escapedChar ++ ['"']

/-! ## Numbers -/

/-- The characters that numerals are made of. -/
def isNumeralChar (c : Char) : Bool :=
  c.isDigit || c == '-' || c == '+' || c == '.' || c == 'e' || c == 'E'

/-- The whole part of a numeral: digits without a superfluous zero in front. -/
def isWhole (cs : List Char) : Bool :=
  Numeral.isDigits cs && (cs.length == 1 || cs.head? != some '0')

/-- A numeral with the given whole part and what follows it: a fraction, an exponent, or one after
the other. -/
def decimal? (whole : List Char) : List Char → Option Decimal
  | '.' :: rest =>
    let fraction := rest.takeWhile Char.isDigit
    if fraction.isEmpty then none
    else
      (Numeral.ending? (rest.dropWhile Char.isDigit)).map fun exponent =>
        ⟨whole, fraction, exponent⟩
  | tail => (Numeral.ending? tail).map fun exponent => ⟨whole, [], exponent⟩

/-- The number that an unsigned numeral stands for; `negative` if a minus sign stood before it. -/
def unsigned? (negative : Bool) (cs : List Char) : Option Token :=
  let whole := cs.takeWhile Char.isDigit
  let tail := cs.dropWhile Char.isDigit
  if !isWhole whole then none
  else
    (decimal? whole tail).map fun d =>
      let n := Nat.ofDigitChars 10 whole 0
      if !d.fitsStepwise then .unbounded
      else if !tail.isEmpty then .real
      else if !negative then .nat n
      else if n = 0 then .real
      else .neg n

/-- The number that a numeral stands for. -/
def numeral? : List Char → Option Token
  | '-' :: cs => unsigned? true cs
  | cs => unsigned? false cs

/-- The token of an integer. -/
def ofInt : Int → Token
  | .ofNat n => .nat n
  | .negSucc n => .neg (n + 1)

/-! ## Tokens -/

/-- The token that is a single mark. -/
def mark? : Char → Option Token
  | '[' => some .openArr
  | ']' => some .closeArr
  | '\x7b' => some .openObj
  | '\x7d' => some .closeObj
  | ',' => some .comma
  | ':' => some .colon
  | _ => none

/-- The token that is a word. -/
def word? (cs : List Char) : Option Token :=
  if cs = ['n', 'u', 'l', 'l'] then some .null
  else if cs = ['t', 'r', 'u', 'e'] then some (.bool true)
  else if cs = ['f', 'a', 'l', 's', 'e'] then some (.bool false)
  else none

/-- The text of a token. Tokens that do not keep what they were read from have none. -/
def chars : Token → List Char
  | openArr => ['[']
  | closeArr => [']']
  | openObj => ['\x7b']
  | closeObj => ['\x7d']
  | comma => [',']
  | colon => [':']
  | null => ['n', 'u', 'l', 'l']
  | bool true => ['t', 'r', 'u', 'e']
  | bool false => ['f', 'a', 'l', 's', 'e']
  | nat value => (toString value).toList
  | neg size => '-' :: (toString size).toList
  | str value => quoted value
  | real | unbounded | broken => []

/-- What stands at the front of a text. -/
inductive Scan where
  /-- Nothing but blanks. -/
  | finished
  /-- Something that is no token. -/
  | fault
  /-- A token, and the text after it. -/
  | token (t : Token) (rest : List Char)

/-- The longest run of characters of a class, read as a token. -/
def scanRun (inClass : Char → Bool) (read : List Char → Option Token) (text : List Char) : Scan :=
  match read (text.takeWhile inClass) with
  | some t => .token t (text.dropWhile inClass)
  | none => .fault

/-- Take the first token off a text. -/
def scan : List Char → Scan
  | [] => .finished
  | c :: cs =>
    if isBlank c then scan cs
    else
      match mark? c with
      | some t => .token t cs
      | none =>
        if c = '"' then
          match scanString cs with
          | some (t, rest) => .token t rest
          | none => .fault
        else if isNumeralChar c then scanRun isNumeralChar numeral? (c :: cs)
        else if c.isAlpha then scanRun Char.isAlpha word? (c :: cs)
        else .fault

/-! ## Scanning makes progress -/

theorem scanUnits_length {text : List Char} {units : List StringUnit} {rest : List Char}
    (h : scanUnits text = some (units, rest)) : rest.length < text.length := by
  fun_induction scanUnits text generalizing units rest with
  | case1 => cases h
  | case2 => cases h; exact Nat.lt_succ_self _
  | case3 a b c d tail n _ _ hs hn ih =>
    cases h
    have := ih hs
    simp only [List.length_cons]
    omega
  | case4 => cases h
  | case5 e tail _ c _ _ hs he ih =>
    cases h
    have := ih hs
    simp only [List.length_cons]
    omega
  | case6 => cases h
  | case7 => cases h
  | case8 c tail _ _ _ _ _ _ hs ih =>
    cases h
    have := ih hs
    simp only [List.length_cons]
    omega
  | case9 => cases h

theorem scanString_length {text : List Char} {t : Token} {rest : List Char}
    (h : scanString text = some (t, rest)) : rest.length < text.length := by
  obtain ⟨⟨units, rest'⟩, hu, heq⟩ := Option.map_eq_some_iff.1 h
  cases heq
  exact scanUnits_length hu

theorem scanRun_length {inClass : Char → Bool} {read : List Char → Option Token} {c : Char}
    {cs : List Char} {t : Token} {rest : List Char} (hc : inClass c = true)
    (h : scanRun inClass read (c :: cs) = .token t rest) : rest.length < (c :: cs).length := by
  unfold scanRun at h
  split at h
  · cases h
    simp only [List.dropWhile_cons, hc, if_true, List.length_cons]
    exact Nat.lt_succ_of_le (List.dropWhile_sublist inClass).length_le
  · cases h

/-- The text after the first token is shorter than the whole. -/
theorem scan_length {text : List Char} {t : Token} {rest : List Char}
    (h : scan text = .token t rest) : rest.length < text.length := by
  induction text with
  | nil => cases h
  | cons c cs ih =>
    unfold scan at h
    split at h
    · exact Nat.lt_succ_of_lt (ih h)
    · split at h
      · cases h
        exact Nat.lt_succ_self _
      · split at h
        · split at h
          · rename_i hs
            cases h
            exact Nat.lt_succ_of_lt (scanString_length hs)
          · cases h
        · split at h
          · rename_i hc
            exact scanRun_length hc h
          · split at h
            · rename_i hc
              exact scanRun_length hc h
            · cases h

end Token

end Lockstep.Json
