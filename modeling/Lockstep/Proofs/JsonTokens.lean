import Lockstep.Json.Printer
import Mathlib.Data.List.TakeWhile

/-!
# Tokens in text

`Spelled ts text` says that a text consists of the texts of the tokens `ts`, with blanks between
them wherever the writer puts some; a number or a word must not run into what follows it. Scanning
such a text finds the tokens one after the other (`scan_chars`), so that nothing is lost between
writing a token and scanning it:

* an escaped character is scanned as that character, and a string of them as the string
  (`scanString_escaped`);
* the digits of a number below `UInt64.size` are a numeral within range that stands for the number
  (`numeral?_nat`, `numeral?_neg`).

A value spells its tokens, laid out over lines (`spelled_pretty`) or in one go (`spelled_compact`).
-/

set_option autoImplicit false

namespace Lockstep.Json

namespace Token

/-! ## Strings -/

/-- Hexadecimal digits are read back. -/
theorem hexDigit?_hexChar : ∀ n, n < 16 → Numeral.hexDigit? (hexChar n) = some n := by
  decide

/-- Control characters are read back from the digits of their codes. -/
theorem hexCode?_hexChar {n : Nat} (h : n < 0x20) :
    hexCode? '0' '0' (hexChar (n / 16)) (hexChar (n % 16)) = some n := by
  have hhigh := hexDigit?_hexChar (n / 16) (by omega)
  have hlow := hexDigit?_hexChar (n % 16) (by omega)
  have hzero : Numeral.hexDigit? '0' = some 0 := by decide
  have hsum : n / 16 * 16 + n % 16 = n := by omega
  simp [hexCode?, hhigh, hlow, hzero, hsum]

/-- A code below the surrogates is a character by itself, whatever comes after it. -/
theorem joinUnits_code {n : Nat} (h : n < 0xD800) (units : List StringUnit) :
    joinUnits (.code n :: units) = (joinUnits units).map (Char.ofNat n :: ·) := by
  have hhigh : ¬(0xD800 ≤ n ∧ n < 0xDC00) := by omega
  have hlow : ¬(0xDC00 ≤ n ∧ n < 0xE000) := by omega
  have hany : ¬(0xD800 ≤ n ∧ n < 0xE000) := by omega
  cases units with
  | nil => simp [joinUnits, hany]
  | cons u units =>
    cases u with
    | char c => simp [joinUnits, hany]
    | code m => rw [joinUnits, if_neg hhigh, if_neg hlow]

/-- What a unit in front adds to the units scanned after it. -/
def withUnit (unit : StringUnit) (scanned : Option (List StringUnit × List Char)) :
    Option (List StringUnit × List Char) :=
  scanned.map fun (units, rest) => (unit :: units, rest)

/-- A character that is escaped by a letter is read back. -/
theorem scanUnits_letter {e c : Char} (h : simpleEscape? e = some c) (rest : List Char) :
    scanUnits ('\\' :: e :: rest) = withUnit (.char c) (scanUnits rest) := by
  have hu : e ≠ 'u' := by
    rintro rfl
    cases h
  rw [scanUnits, h]
  · cases scanUnits rest <;> rfl
  · rintro a b c d tail rfl
    exact absurd rfl hu

/-- A control character that is escaped by its code is read as this code. -/
theorem scanUnits_code {n : Nat} (h : n < 0x20) (rest : List Char) :
    scanUnits ('\\' :: 'u' :: '0' :: '0' :: hexChar (n / 16) :: hexChar (n % 16) :: rest) =
      withUnit (.code n) (scanUnits rest) := by
  rw [scanUnits, hexCode?_hexChar h]
  cases scanUnits rest <;> rfl

/-- Other characters stand for themselves. -/
theorem scanUnits_plain {c : Char} (hquote : c ≠ '"') (hslash : c ≠ '\\') (h : 0x20 ≤ c.toNat)
    (rest : List Char) : scanUnits (c :: rest) = withUnit (.char c) (scanUnits rest) := by
  have hplain : ¬(c.toNat < 0x20 ∨ c = '\\') := by
    rintro (hlow | rfl)
    · omega
    · exact hslash rfl
  rw [scanUnits, if_neg hplain]
  · cases scanUnits rest <;> rfl
  · exact hquote
  · intro _ _ _ _ _ heq _
    exact hslash heq
  · intro _ _ heq _
    exact hslash heq

/-- A character is escaped by a letter of its own, or by its code, or it stands for itself. -/
theorem escapedChar_cases (c : Char) :
    (∃ e, simpleEscape? e = some c ∧ escapedChar c = ['\\', e]) ∨
    (c.toNat < 0x20 ∧
      escapedChar c = ['\\', 'u', '0', '0', hexChar (c.toNat / 16), hexChar (c.toNat % 16)]) ∨
    (c ≠ '"' ∧ c ≠ '\\' ∧ 0x20 ≤ c.toNat ∧ escapedChar c = [c]) := by
  by_cases hletter : c ∈ ['"', '\\', '\x08', '\x0c', '\n', '\r', '\t']
  · simp only [List.mem_cons, List.not_mem_nil, or_false] at hletter
    apply Or.inl
    rcases hletter with rfl | rfl | rfl | rfl | rfl | rfl | rfl <;> exact ⟨_, rfl, rfl⟩
  · simp only [List.mem_cons, List.not_mem_nil, or_false, not_or] at hletter
    obtain ⟨hquote, hslash, hback, hfeed, hline, hreturn, htab⟩ := hletter
    apply Or.inr
    by_cases hlow : c.toNat < 0x20
    · exact .inl ⟨hlow, by
        simp [escapedChar, hquote, hslash, hback, hfeed, hline, hreturn, htab, hlow]⟩
    · exact .inr ⟨hquote, hslash, Nat.le_of_not_lt hlow, by
        simp [escapedChar, hquote, hslash, hback, hfeed, hline, hreturn, htab, hlow]⟩

/-- An escaped character is scanned as one unit, which stands for the character. -/
theorem scanUnits_escapedChar (c : Char) : ∃ unit : StringUnit,
    (∀ rest, scanUnits (escapedChar c ++ rest) = withUnit unit (scanUnits rest)) ∧
    ∀ units, joinUnits (unit :: units) = (joinUnits units).map (c :: ·) := by
  rcases escapedChar_cases c with ⟨e, he, htext⟩ | ⟨hlow, htext⟩ | ⟨hquote, hslash, hhigh, htext⟩
  · rw [htext]
    exact ⟨.char c, scanUnits_letter he, fun units => rfl⟩
  · rw [htext]
    refine ⟨.code c.toNat, scanUnits_code hlow, ?_⟩
    intro units
    rw [joinUnits_code (by omega), Char.ofNat_toNat]
  · rw [htext]
    exact ⟨.char c, scanUnits_plain hquote hslash hhigh, fun units => rfl⟩

/-- An escaped text is read back up to the quotation mark that ends it. -/
theorem scanUnits_escaped (cs rest : List Char) : ∃ units,
    scanUnits (cs.flatMap escapedChar ++ '"' :: rest) = some (units, rest) ∧
      joinUnits units = some cs := by
  induction cs with
  | nil => exact ⟨[], by simp [scanUnits], rfl⟩
  | cons c cs ih =>
    obtain ⟨unit, hscan, hjoin⟩ := scanUnits_escapedChar c
    obtain ⟨units, hunits, hchars⟩ := ih
    refine ⟨unit :: units, ?_, ?_⟩
    · rw [List.flatMap_cons, List.append_assoc, hscan, hunits]
      rfl
    · rw [hjoin, hchars]
      rfl

/-- A string is scanned as what was written, up to its closing quote. -/
theorem scanString_escaped (s : String) (rest : List Char) :
    scanString (s.toList.flatMap escapedChar ++ '"' :: rest) = some (.str s, rest) := by
  obtain ⟨units, hscan, hjoin⟩ := scanUnits_escaped s.toList rest
  simp [scanString, hscan, ofUnits, hjoin]

/-! ## Numbers -/

/-- The digits of a number do not start with a zero, unless the number is zero. -/
theorem head?_toDigits {n : Nat} (h : n ≠ 0) : (Nat.toDigits 10 n).head? ≠ some '0' := by
  induction n using Nat.strongRecOn with
  | _ n ih =>
    by_cases hsmall : n < 10
    · have hdigit : ∀ m, m < 10 → m ≠ 0 → m.digitChar ≠ '0' := by decide
      rw [Nat.toDigits_of_lt_base hsmall]
      simpa using hdigit n hsmall h
    · have hfront := ih (n / 10) (by omega) (by omega)
      rw [Nat.toDigits_of_base_le (by omega) (by omega)]
      cases hdigits : Nat.toDigits 10 (n / 10) with
      | nil => exact absurd hdigits Nat.toDigits_ne_nil
      | cons d ds => simpa [hdigits] using hfront

/-- A numeral has no zero in front of other digits. -/
theorem isWhole_toDigits (n : Nat) : isWhole (Nat.toDigits 10 n) = true := by
  have hdigits : Numeral.isDigits (Nat.toDigits 10 n) = true := by
    have hall : ∀ c ∈ Nat.toDigits 10 n, c.isDigit = true := fun c hc =>
      Nat.isDigit_of_mem_toDigits (by omega) (by omega) hc
    simpa [Numeral.isDigits, Nat.toDigits_ne_nil] using hall
  by_cases h : n = 0
  · subst h
    decide
  · simp [isWhole, hdigits, head?_toDigits h]

/-- More digits make no number smaller. -/
theorem le_ofDigitChars (ds : List Char) (n : Nat) : n ≤ Nat.ofDigitChars 10 ds n := by
  induction ds generalizing n with
  | nil => exact Nat.le_refl n
  | cons c ds ih =>
    rw [Nat.ofDigitChars_cons]
    have hrest := ih (10 * n + (c.toNat - '0'.toNat))
    omega

/-- Digits that make a number below the bound are taken in to the last. -/
theorem absorb_eq (ds : List Char) (n : Nat) (h : Nat.ofDigitChars 10 ds n < UInt64.size) :
    Decimal.absorb n ds = (Nat.ofDigitChars 10 ds n, []) := by
  induction ds generalizing n with
  | nil => rfl
  | cons c ds ih =>
    rw [Nat.ofDigitChars_cons] at h ⊢
    have hnext := le_ofDigitChars ds (10 * n + (c.toNat - '0'.toNat))
    rw [Decimal.absorb, if_pos (by omega)]
    exact ih _ h

/-- A number is at most doubled when it is rounded. -/
theorem roundToDouble_le (n : Nat) : Decimal.roundToDouble n ≤ 2 * n := by
  by_cases h : n = 0
  · subst h
    decide
  · have hunit : Nat.pow 2 (n.log2 - 52) ≤ n :=
      Nat.le_trans (Nat.pow_le_pow_right (by omega) (Nat.sub_le n.log2 52)) (Nat.log2_self_le h)
    have hdown := Nat.div_mul_le_self n (Nat.pow 2 (n.log2 - 52))
    -- Whichever way the number is rounded, it grows by one unit at most.
    have hup : ∀ d, d ≤ n / Nat.pow 2 (n.log2 - 52) + 1 → d * Nat.pow 2 (n.log2 - 52) ≤ 2 * n := by
      intro d hd
      have hmul := Nat.mul_le_mul_right (Nat.pow 2 (n.log2 - 52)) hd
      rw [Nat.add_mul, Nat.one_mul] at hmul
      omega
    unfold Decimal.roundToDouble
    simp only
    split
    · exact hup _ (by omega)
    · split
      · exact hup _ (by omega)
      · exact hup _ (by omega)

/-- A numeral of a word is not taken for too large at any of its digits. -/
theorem fitsStepwise_toDigits {n : Nat} (h : n < UInt64.size) :
    Decimal.fitsStepwise ⟨Nat.toDigits 10 n, [], 0⟩ = true := by
  have habsorb := absorb_eq (Nat.toDigits 10 n) 0 (by rwa [Nat.ofDigitChars_ten_toDigits])
  rw [Nat.ofDigitChars_ten_toDigits] at habsorb
  have hleading : Decimal.leading ⟨Nat.toDigits 10 n, [], 0⟩ = (n, 0) := by
    simp [Decimal.leading, habsorb, Decimal.absorb]
  have hround := roundToDouble_le n
  have hone : Decimal.roundToDouble (Nat.pow 10 (0 : Int).toNat) = 1 := by decide
  have hbound : 2 * UInt64.size < Decimal.infiniteFrom := by decide +kernel
  have hfits : Decimal.roundToDouble n * 1 < Decimal.infiniteFrom := by omega
  simp only [Decimal.fitsStepwise, hleading, hone, hfits]
  simp

theorem unsigned?_toDigits {n : Nat} (h : n < UInt64.size) (negative : Bool) :
    unsigned? negative (Nat.toDigits 10 n) =
      some (if !negative then .nat n else if n = 0 then .real else .neg n) := by
  have hall : ∀ c ∈ Nat.toDigits 10 n, c.isDigit = true := fun c hc =>
    Nat.isDigit_of_mem_toDigits (by omega) (by omega) hc
  have htake : (Nat.toDigits 10 n).takeWhile Char.isDigit = Nat.toDigits 10 n :=
    List.takeWhile_eq_self_iff.2 hall
  have hdrop : (Nat.toDigits 10 n).dropWhile Char.isDigit = [] := by
    rw [List.dropWhile_eq_nil_iff]
    exact hall
  simp [unsigned?, htake, hdrop, isWhole_toDigits, decimal?, Numeral.ending?,
    fitsStepwise_toDigits h, Nat.ofDigitChars_ten_toDigits]

/-- The numeral of a word is read back. -/
theorem numeral?_nat {n : Nat} (h : n < UInt64.size) :
    numeral? (Nat.toDigits 10 n) = some (.nat n) := by
  have hminus : ∀ cs, Nat.toDigits 10 n ≠ '-' :: cs := by
    intro cs heq
    have hdigit : ('-' : Char).isDigit = true :=
      Nat.isDigit_of_mem_toDigits (b := 10) (n := n) (by omega) (by omega) (by rw [heq]; simp)
    revert hdigit
    decide
  rw [numeral?, unsigned?_toDigits h]
  · rfl
  · exact hminus

/-- So it is with a minus sign before it, unless the word is zero. -/
theorem numeral?_neg {n : Nat} (h : n < UInt64.size) (hzero : n ≠ 0) :
    numeral? ('-' :: Nat.toDigits 10 n) = some (.neg n) := by
  rw [numeral?, unsigned?_toDigits h]
  simp [hzero]

/-! ## Scanning what was written -/

/-- Nothing that a number or a word could run into. -/
def Delimited (rest : List Char) : Prop :=
  ∀ c ∈ rest.head?, isNumeralChar c = false ∧ c.isAlpha = false

/-- The tokens that this library writes. -/
def Written : Token → Prop
  | real | unbounded | broken => False
  | nat n => n < UInt64.size
  | neg n => n < UInt64.size ∧ n ≠ 0
  | _ => True

/-- Whether the end of a token can be told without what follows it. -/
def endsItself : Token → Bool
  | openArr | closeArr | openObj | closeObj | comma | colon | str _ => true
  | _ => false

/-- A run of characters of a class ends where the class does. -/
theorem scanRun_append {inClass : Char → Bool} {read : List Char → Option Token} {t : Token}
    {cs rest : List Char} (hin : ∀ c ∈ cs, inClass c = true)
    (hrest : ∀ c ∈ rest.head?, inClass c = false) (hread : read cs = some t) :
    scanRun inClass read (cs ++ rest) = .token t rest := by
  have htake : (cs ++ rest).takeWhile inClass = cs := by
    rw [List.takeWhile_append_of_pos hin]
    cases rest with
    | nil => simp
    | cons c rest => simp [hrest c rfl]
  have hdrop : (cs ++ rest).dropWhile inClass = rest := by
    rw [List.dropWhile_append_of_pos hin]
    cases rest with
    | nil => rfl
    | cons c rest => simp [hrest c rfl]
  simp only [scanRun, htake, hdrop, hread]

/-- What a character is not when it may stand in a numeral. -/
theorem numeralChar_cases {c : Char} (h : isNumeralChar c = true) :
    isBlank c = false ∧ mark? c = none ∧ c ≠ '"' := by
  refine ⟨?_, ?_, ?_⟩
  · cases hblank : isBlank c with
    | false => rfl
    | true =>
      simp only [isBlank, Bool.or_eq_true, beq_iff_eq] at hblank
      rcases hblank with ((rfl | rfl) | rfl) | rfl <;> revert h <;> decide
  · unfold mark?
    split <;> first | rfl | (revert h; decide)
  · rintro rfl
    revert h
    decide

/-- A number is scanned as one token if nothing that it could run into follows. -/
theorem scan_numeral {t : Token} {cs rest : List Char} (hne : cs ≠ [])
    (hin : ∀ c ∈ cs, isNumeralChar c = true) (hread : numeral? cs = some t)
    (hrest : Delimited rest) : scan (cs ++ rest) = .token t rest := by
  have hrun := scanRun_append hin (fun c hc => (hrest c hc).1) hread
  cases cs with
  | nil => exact absurd rfl hne
  | cons c cs =>
    have hc := hin c List.mem_cons_self
    obtain ⟨hblank, hmark, hquote⟩ := numeralChar_cases hc
    rw [List.cons_append] at hrun ⊢
    simp only [scan, hblank, hmark, hquote, hc, hrun, Bool.false_eq_true, if_false, if_true]

theorem isNumeralChar_of_mem_toDigits {n : Nat} {c : Char} (h : c ∈ Nat.toDigits 10 n) :
    isNumeralChar c = true := by
  have hdigit : c.isDigit = true := Nat.isDigit_of_mem_toDigits (by omega) (by omega) h
  simp [isNumeralChar, hdigit]

/-- So is a word. -/
theorem scan_letters {t : Token} {c : Char} {cs rest : List Char}
    (hstart : isBlank c = false ∧ mark? c = none ∧ c ≠ '"' ∧ isNumeralChar c = false)
    (hletters : (c :: cs).all Char.isAlpha = true) (hread : word? (c :: cs) = some t)
    (hrest : Delimited rest) : scan (c :: cs ++ rest) = .token t rest := by
  have hin : ∀ d ∈ c :: cs, d.isAlpha = true := List.all_eq_true.1 hletters
  have hrun := scanRun_append hin (fun d hd => (hrest d hd).2) hread
  have hc := hin c List.mem_cons_self
  obtain ⟨hblank, hmark, hquote, hnumeral⟩ := hstart
  rw [List.cons_append] at hrun ⊢
  simp only [scan, hblank, hmark, hquote, hnumeral, hc, hrun, Bool.false_eq_true, if_false, if_true]

/-- A quoted text is scanned as one token whatever follows. -/
theorem scan_quoted (s : String) (rest : List Char) :
    scan (quoted s ++ rest) = .token (.str s) rest := by
  have hstring := scanString_escaped s rest
  have htext : quoted s ++ rest = '"' :: (s.toList.flatMap escapedChar ++ '"' :: rest) := by
    simp [quoted]
  have hstart : isBlank '"' = false ∧ mark? '"' = none := by decide
  rw [htext]
  simp only [scan, hstart.1, hstart.2, hstring, Bool.false_eq_true, if_false, if_true]

/-- A token that was written is scanned as it was, if it does not run into what follows. -/
theorem scan_chars {t : Token} {rest : List Char} (hwritten : t.Written)
    (hrest : t.endsItself = true ∨ Delimited rest) : scan (t.chars ++ rest) = .token t rest := by
  cases t with
  | openArr | closeArr | openObj | closeObj | comma | colon => rfl
  | real | unbounded | broken => exact absurd hwritten id
  | str s => exact scan_quoted s rest
  | null =>
    have hdelimited : Delimited rest := hrest.resolve_left (by simp [endsItself])
    exact scan_letters (by decide) (by decide) rfl hdelimited
  | bool value =>
    have hdelimited : Delimited rest := hrest.resolve_left (by simp [endsItself])
    cases value with
    | true => exact scan_letters (by decide) (by decide) rfl hdelimited
    | false => exact scan_letters (by decide) (by decide) rfl hdelimited
  | nat n =>
    have hdelimited : Delimited rest := hrest.resolve_left (by simp [endsItself])
    have htext : (nat n).chars = Nat.toDigits 10 n := by simp [chars]
    rw [htext]
    apply scan_numeral Nat.toDigits_ne_nil _ (numeral?_nat hwritten) hdelimited
    exact fun c hc => isNumeralChar_of_mem_toDigits hc
  | neg n =>
    have hdelimited : Delimited rest := hrest.resolve_left (by simp [endsItself])
    have htext : (neg n).chars = '-' :: Nat.toDigits 10 n := by simp [chars]
    rw [htext]
    apply scan_numeral (List.cons_ne_nil _ _) _ (numeral?_neg hwritten.1 hwritten.2) hdelimited
    rintro c (_ | ⟨_, hc⟩)
    · decide
    · exact isNumeralChar_of_mem_toDigits hc

/-- Blanks are skipped. -/
theorem scan_blank {c : Char} (h : isBlank c = true) (text : List Char) :
    scan (c :: text) = scan text := by
  rw [scan, if_pos h]

end Token

/-! ## Spelling -/

open Token

/-- A text that consists of the texts of tokens and of blanks between them. -/
inductive Spelled : List Token → List Char → Prop
  | nil : Spelled [] []
  | blank {c : Char} {ts : List Token} {text : List Char} :
      isBlank c = true → Spelled ts text → Spelled ts (c :: text)
  | token {t : Token} {ts : List Token} {text : List Char} :
      t.Written → t.endsItself = true ∨ Delimited text → Spelled ts text →
      Spelled (t :: ts) (t.chars ++ text)

mutual

/-- The integers in a value fit into words, so that they are read as they were written. -/
def InWords : Json → Prop
  | .int n => n.natAbs < UInt64.size
  | .arr items => ItemsInWords items
  | .obj members => MembersInWords members
  | _ => True

/-- The integers in the items of an array fit into words. -/
def ItemsInWords : List Json → Prop
  | [] => True
  | item :: items => item.InWords ∧ ItemsInWords items

/-- The integers in the members of an object fit into words. -/
def MembersInWords : List (String × Json) → Prop
  | [] => True
  | (_, value) :: members => value.InWords ∧ MembersInWords members

end

theorem written_ofInt {n : Int} (h : n.natAbs < UInt64.size) : (ofInt n).Written := by
  cases n with
  | ofNat n => exact h
  | negSucc n => exact ⟨h, Nat.succ_ne_zero n⟩

theorem delimited_blank {c : Char} (h : isBlank c = true) (rest : List Char) :
    Delimited (c :: rest) := by
  rintro d ⟨rfl⟩
  simp only [isBlank, Bool.or_eq_true, beq_iff_eq] at h
  rcases h with ((rfl | rfl) | rfl) | rfl <;> decide

/-- A new line and what it is indented by are blanks. -/
theorem Spelled.newline {ts : List Token} {text : List Char} (depth : Nat) (h : Spelled ts text) :
    Spelled ts (newline depth ++ text) := by
  have hblanks : ∀ n, Spelled ts (List.replicate n ' ' ++ text) := by
    intro n
    induction n with
    | zero => exact h
    | succ n ih => exact .blank (by decide) ih
  exact .blank (by decide) (hblanks _)

theorem delimited_newline (depth : Nat) (rest : List Char) : Delimited (newline depth ++ rest) :=
  delimited_blank (by decide) _

/-- A token that ends by itself also ends what stands before it. -/
theorem delimited_mark {t : Token} (h : t.endsItself = true) (rest : List Char) :
    Delimited (t.chars ++ rest) := by
  cases t with
  | openArr | closeArr | openObj | closeObj | comma | colon | str =>
    rintro c ⟨rfl⟩
    decide
  | _ => cases h

/-- A token that ends by itself may stand before anything. -/
theorem Spelled.mark {t : Token} {ts : List Token} {text : List Char} (h : Spelled ts text)
    (hwritten : t.Written) (hends : t.endsItself = true) : Spelled (t :: ts) (t.chars ++ text) :=
  .token hwritten (.inl hends) h

/-- A member is spelled as its key, a colon, a blank and its value. -/
theorem Spelled.entry {ts : List Token} {text : List Char} (h : Spelled ts text) (key : String) :
    Spelled (.str key :: .colon :: ts)
      ((Token.str key).chars ++ (Token.colon.chars ++ ' ' :: text)) := by
  have hblank : Spelled ts (' ' :: text) := .blank (by decide) h
  exact (hblank.mark (t := .colon) trivial rfl).mark (t := .str key) trivial rfl

mutual

/-- A value laid out over lines spells its tokens. -/
theorem spelled_prettyChars {ts : List Token} {text : List Char} (h : Spelled ts text)
    (htext : Delimited text) (depth : Nat) : ∀ v : Json, v.InWords →
      Spelled (v.tokens ++ ts) (prettyChars depth v ++ text)
  | .null, _ => .token trivial (.inr htext) h
  | .bool _, _ => .token trivial (.inr htext) h
  | .int n, hn => .token (written_ofInt hn) (.inr htext) h
  | .str _, _ => h.mark trivial rfl
  | .arr [], _ => (h.mark (t := .closeArr) trivial rfl).mark (t := .openArr) trivial rfl
  | .obj [], _ => (h.mark (t := .closeObj) trivial rfl).mark (t := .openObj) trivial rfl
  | .arr (item :: items), hitems => by
    have hclose := (h.mark (t := .closeArr) trivial rfl).newline depth
    have hinside := spelled_prettyItems hclose (delimited_newline depth _) (depth + 1)
      (item :: items) hitems
    have hopen := hinside.mark (t := .openArr) trivial rfl
    simpa [tokens, prettyChars] using hopen
  | .obj (m :: members), hmembers => by
    have hclose := (h.mark (t := .closeObj) trivial rfl).newline depth
    have hinside := spelled_prettyMembers hclose (delimited_newline depth _) (depth + 1)
      (m :: members) hmembers
    have hopen := hinside.mark (t := .openObj) trivial rfl
    simpa [tokens, prettyChars] using hopen

/-- So do the items of an array, one in a line. -/
theorem spelled_prettyItems {ts : List Token} {text : List Char} (h : Spelled ts text)
    (htext : Delimited text) (depth : Nat) : ∀ items : List Json, ItemsInWords items →
      Spelled (itemTokens items ++ ts) (prettyItems depth items ++ text)
  | [], _ => h
  | [item], hitems => by
    have hitem := spelled_prettyChars h htext depth item hitems.1
    simpa [itemTokens, prettyItems] using hitem.newline depth
  | item :: item' :: items, hitems => by
    have hrest := spelled_prettyItems h htext depth (item' :: items) hitems.2
    have hcomma := hrest.mark (t := .comma) trivial rfl
    have hitem := spelled_prettyChars hcomma (delimited_mark rfl _) depth item hitems.1
    simpa [itemTokens, prettyItems] using hitem.newline depth

/-- So do the members of an object. -/
theorem spelled_prettyMembers {ts : List Token} {text : List Char} (h : Spelled ts text)
    (htext : Delimited text) (depth : Nat) : ∀ members : List (String × Json),
      MembersInWords members →
      Spelled (memberTokens members ++ ts) (prettyMembers depth members ++ text)
  | [], _ => h
  | [(key, value)], hmembers => by
    have hvalue := spelled_prettyChars h htext depth value hmembers.1
    simpa [memberTokens, prettyMembers] using (hvalue.entry key).newline depth
  | (key, value) :: m :: members, hmembers => by
    have hrest := spelled_prettyMembers h htext depth (m :: members) hmembers.2
    have hcomma := hrest.mark (t := .comma) trivial rfl
    have hvalue := spelled_prettyChars hcomma (delimited_mark rfl _) depth value hmembers.1
    simpa [memberTokens, prettyMembers] using (hvalue.entry key).newline depth

end

/-- The text of a value laid out over lines spells its tokens. -/
theorem spelled_pretty {v : Json} (h : v.InWords) : Spelled v.tokens v.pretty.toList := by
  have hchars := spelled_prettyChars .nil (by rintro c ⟨⟩) 0 v h
  simpa [pretty] using hchars

mutual

/-- A value written without blanks spells its tokens. -/
theorem spelled_tokens {ts : List Token} {text : List Char} (h : Spelled ts text)
    (htext : Delimited text) : ∀ v : Json, v.InWords →
      Spelled (v.tokens ++ ts) (v.tokens.flatMap chars ++ text)
  | .null, _ => .token trivial (.inr htext) h
  | .bool value, _ => by
    have hvalue : Spelled (.bool value :: ts) ((Token.bool value).chars ++ text) :=
      .token trivial (.inr htext) h
    simpa [tokens] using hvalue
  | .int n, hn => by
    have hvalue : Spelled (ofInt n :: ts) ((ofInt n).chars ++ text) :=
      .token (written_ofInt hn) (.inr htext) h
    simpa [tokens] using hvalue
  | .str value, _ => by
    have hvalue := h.mark (t := .str value) trivial rfl
    simpa [tokens] using hvalue
  | .arr items, hitems => by
    have hclose := h.mark (t := .closeArr) trivial rfl
    have hinside := spelled_itemTokens hclose (delimited_mark rfl _) items hitems
    have hopen := hinside.mark (t := .openArr) trivial rfl
    simpa [tokens] using hopen
  | .obj members, hmembers => by
    have hclose := h.mark (t := .closeObj) trivial rfl
    have hinside := spelled_memberTokens hclose (delimited_mark rfl _) members hmembers
    have hopen := hinside.mark (t := .openObj) trivial rfl
    simpa [tokens] using hopen

/-- So do the items of an array. -/
theorem spelled_itemTokens {ts : List Token} {text : List Char} (h : Spelled ts text)
    (htext : Delimited text) : ∀ items : List Json, ItemsInWords items →
      Spelled (itemTokens items ++ ts) ((itemTokens items).flatMap chars ++ text)
  | [], _ => h
  | [item], hitems => spelled_tokens h htext item hitems.1
  | item :: item' :: items, hitems => by
    have hrest := spelled_itemTokens h htext (item' :: items) hitems.2
    have hcomma := hrest.mark (t := .comma) trivial rfl
    have hitem := spelled_tokens hcomma (delimited_mark rfl _) item hitems.1
    simpa [itemTokens] using hitem

/-- So do the members of an object. -/
theorem spelled_memberTokens {ts : List Token} {text : List Char} (h : Spelled ts text)
    (htext : Delimited text) : ∀ members : List (String × Json), MembersInWords members →
      Spelled (memberTokens members ++ ts) ((memberTokens members).flatMap chars ++ text)
  | [], _ => h
  | [(key, value)], hmembers => by
    have hvalue := spelled_tokens h htext value hmembers.1
    have hkey := (hvalue.mark (t := .colon) trivial rfl).mark (t := .str key) trivial rfl
    simpa [memberTokens] using hkey
  | (key, value) :: m :: members, hmembers => by
    have hrest := spelled_memberTokens h htext (m :: members) hmembers.2
    have hcomma := hrest.mark (t := .comma) trivial rfl
    have hvalue := spelled_tokens hcomma (delimited_mark rfl _) value hmembers.1
    have hkey := (hvalue.mark (t := .colon) trivial rfl).mark (t := .str key) trivial rfl
    simpa [memberTokens] using hkey

end

/-- The text of a value without blanks spells its tokens. -/
theorem spelled_compact {v : Json} (h : v.InWords) : Spelled v.tokens v.compact.toList := by
  have hchars := spelled_tokens .nil (by rintro c ⟨⟩) v h
  simpa [compact] using hchars

end Lockstep.Json
