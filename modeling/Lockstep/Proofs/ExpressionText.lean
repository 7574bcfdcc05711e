import Lockstep.Lowering
import Mathlib.Data.List.Basic

/-!
# The text of expressions

A value that is computed at run time reaches the controller as program text, so it matters what can
be read off the text of an expression. Binary operations stand in parentheses. Comparisons and
negations do not: `not a == b` is the text of a negated comparison and of a comparison with a
negation on its left, and `a == b < c` is the text of two different comparisons
(`regrouped_values_share_a_store`).

That is all that is lost. `Expr.regrouped` moves every comparison to the end of the chain that it
stands in and keeps the text (`text_regrouped`). Expressions of this form follow a grammar in which
a chain is an operand, with negations before it and a relation and a chain after it (`Operand`,
`Chain`), and chains can be read back: `Operand.reads` and `Chain.reads` say that a text splits into
an expression and what follows in one way only, where what follows cannot be taken for a part of it.
-/

set_option autoImplicit false

namespace Lockstep

/-! ## Names -/

/-- The characters of identifiers: letters, digits, the underscore, and all characters that are not
ASCII. -/
def isIdentifierChar (c : Char) : Bool := c.isAlphanum || c == '_' || decide (128 ≤ c.toNat)

/-- Whether a text is an identifier. -/
def isIdentifier (name : String) : Bool :=
  match name.toList with
  | [] => false
  | c :: cs => !c.isDigit && (c :: cs).all isIdentifierChar

/-- The words that have a meaning of their own in program text. -/
def reservedWords : List String := ["True", "False", "not", "and", "or"]

/-- Whether a text can be the name of a variable or of what is called. -/
def isName (name : String) : Bool := isIdentifier name && !reservedWords.contains name

/-! ## Words -/

/-- The characters that end a word. -/
def endsWord (c : Char) : Bool := c == ' ' || c == '(' || c == ')' || c == ','

/-- What follows a word: nothing, or a character that ends it. -/
def Apart (rest : List Char) : Prop := ∀ c ∈ rest.head?, endsWord c = true

/-- A character that ends no word goes on with the word before it. -/
theorem not_apart_cons {c : Char} (hc : endsWord c = false) (rest : List Char) :
    ¬Apart (c :: rest) := by
  intro h
  have hends := h c rfl
  rw [hc] at hends
  cases hends

/-- A word and what follows it can be told apart. -/
theorem word_append_inj {rest rest' : List Char} (hrest : Apart rest) (hrest' : Apart rest') :
    ∀ {word word' : List Char}, (∀ c ∈ word, endsWord c = false) →
      (∀ c ∈ word', endsWord c = false) → word ++ rest = word' ++ rest' →
      word = word' ∧ rest = rest'
  | [], [], _, _, h => ⟨rfl, h⟩
  | [], c :: word', _, hword', h => by
    -- the longer word would go on in the rest of the shorter one
    obtain rfl : rest = c :: (word' ++ rest') := h
    exact absurd hrest (not_apart_cons (hword' c (.head _)) _)
  | c :: word, [], hword, _, h => by
    obtain rfl : c :: (word ++ rest) = rest' := h
    exact absurd hrest' (not_apart_cons (hword c (.head _)) _)
  | c :: word, c' :: word', hword, hword', h => by
    obtain ⟨rfl, htails⟩ := List.cons.inj h
    obtain ⟨rfl, hrests⟩ := word_append_inj hrest hrest'
      (fun d hd => hword d (.tail _ hd)) (fun d hd => hword' d (.tail _ hd)) htails
    exact ⟨rfl, hrests⟩

theorem apart_space (rest : List Char) : Apart (' ' :: rest) := by
  rintro c ⟨rfl⟩
  rfl

/-- Characters of a kind that excludes spaces, parentheses and commas end no word. -/
theorem endsWord_eq_false {p : Char → Bool} {c : Char} (hc : p c = true)
    (hp : [' ', '(', ')', ','].all (fun d => !p d) = true) : endsWord c = false := by
  rw [Bool.eq_false_iff]
  intro hends
  have hmem : c ∈ [' ', '(', ')', ','] := by
    simpa [endsWord, or_assoc] using hends
  have hno := List.all_eq_true.1 hp c hmem
  simp [hc] at hno

/-- The characters of the texts of integers. -/
def isIntegerChar (c : Char) : Bool := c.isDigit || c == '-'

theorem isIntegerChar_of_mem_toDigits {n : Nat} {c : Char} (hc : c ∈ Nat.toDigits 10 n) :
    isIntegerChar c = true := by
  simp [isIntegerChar, Nat.isDigit_of_mem_toDigits (by decide) (by decide) hc]

/-- The text of an integer is a numeral, with a minus sign before it if the integer is negative. -/
theorem toList_toString (i : Int) :
    (toString i).toList =
      if 0 ≤ i then Nat.toDigits 10 i.toNat else '-' :: Nat.toDigits 10 (-i).toNat := by
  rw [Int.toString_eq_repr, Int.repr_eq_if]
  split <;> simp

/-- The text of an integer is made of digits and a minus sign. -/
theorem isIntegerChar_of_mem_toString {i : Int} {c : Char} (hc : c ∈ (toString i).toList) :
    isIntegerChar c = true := by
  rw [toList_toString] at hc
  split at hc
  · exact isIntegerChar_of_mem_toDigits hc
  · rcases List.mem_cons.1 hc with rfl | hc
    · rfl
    · exact isIntegerChar_of_mem_toDigits hc

theorem toList_toString_ne_nil (i : Int) : (toString i).toList ≠ [] := by
  rw [toList_toString]
  split
  · exact Nat.toDigits_ne_nil
  · exact List.cons_ne_nil _ _

/-- A number can be read off its numeral. -/
theorem toDigits_inj {m n : Nat} (h : Nat.toDigits 10 m = Nat.toDigits 10 n) : m = n := by
  have hread := congrArg (Nat.ofDigitChars 10 · 0) h
  simpa using hread

/-- A numeral begins with no minus sign. -/
theorem toDigits_ne_cons_minus {n : Nat} {cs : List Char} : Nat.toDigits 10 n ≠ '-' :: cs := by
  intro h
  have hdigit : '-'.isDigit = true :=
    Nat.isDigit_of_mem_toDigits (by decide) (by decide) (h ▸ List.mem_cons_self)
  exact absurd hdigit (by decide)

/-- An integer can be read off its text. -/
theorem eq_of_toList_toString_eq {i j : Int} (h : (toString i).toList = (toString j).toList) :
    i = j := by
  rw [toList_toString, toList_toString] at h
  split at h <;> split at h
  · have hdigits := toDigits_inj h
    omega
  · exact absurd h toDigits_ne_cons_minus
  · exact absurd h.symm toDigits_ne_cons_minus
  · have hdigits := toDigits_inj (List.cons.inj h).2
    omega

/-- A name consists of characters of identifiers, and the first one begins no integer. -/
theorem exists_cons_of_isName {name : String} (h : isName name = true) :
    ∃ c cs, name.toList = c :: cs ∧ isIntegerChar c = false ∧
      ∀ d ∈ c :: cs, isIdentifierChar d = true := by
  obtain ⟨hid, -⟩ := Bool.and_eq_true_iff.1 h
  cases hname : name.toList with
  | nil => simp [isIdentifier, hname] at hid
  | cons c cs =>
    simp only [isIdentifier, hname, Bool.and_eq_true, Bool.not_eq_true', List.all_eq_true] at hid
    refine ⟨c, cs, rfl, ?_, hid.2⟩
    have hminus : c ≠ '-' := by
      rintro rfl
      exact absurd (hid.2 '-' (.head _)) (by decide)
    simp [isIntegerChar, hid.1, hminus]

/-- No character of a name ends a word. -/
theorem endsWord_of_mem_name {name : String} (h : isName name = true) {c : Char}
    (hc : c ∈ name.toList) : endsWord c = false := by
  obtain ⟨d, ds, hname, -, hall⟩ := exists_cons_of_isName h
  exact endsWord_eq_false (hall c (hname ▸ hc)) (by decide)

theorem toList_ne_of_isName {name : String} (h : isName name = true) {word : String}
    (hword : word ∈ reservedWords) : name.toList ≠ word.toList := by
  intro heq
  obtain rfl := String.toList_inj.1 heq
  obtain ⟨-, hfree⟩ := Bool.and_eq_true_iff.1 h
  simp [hword] at hfree

namespace Expr

mutual

/-- Whether all names in an expression are names and all calls in it take no time. -/
def isNamed : Expr → Bool
  | bool _ => true
  | int _ => true
  | var name => isName name
  | call callee args duration => isName callee && decide (duration = .zero) && areNamed args
  | not inner => inner.isNamed
  | compare left _ right => left.isNamed && right.isNamed
  | binary left _ right => left.isNamed && right.isNamed

/-- Whether so it is in all expressions of a list. -/
def areNamed : List Expr → Bool
  | [] => true
  | arg :: args => arg.isNamed && areNamed args

end

/-! ## Regrouping -/

/-- Compare the end of a chain of comparisons and negations with one more expression. -/
def followedBy (relation : Relation) (right : Expr) : Expr → Expr
  | not inner => not (followedBy relation right inner)
  | compare left first rest => compare left first (followedBy relation right rest)
  | bool value => compare (bool value) relation right
  | int value => compare (int value) relation right
  | var name => compare (var name) relation right
  | call callee args duration => compare (call callee args duration) relation right
  | binary left op inner => compare (binary left op inner) relation right

mutual

/-- An expression in which every comparison has been moved to the end of its chain. -/
def regrouped : Expr → Expr
  | bool value => bool value
  | int value => int value
  | var name => var name
  | call callee args duration => call callee (regroupedAll args) duration
  | not inner => not inner.regrouped
  | compare left relation right => followedBy relation right.regrouped left.regrouped
  | binary left op right => binary left.regrouped op right.regrouped

/-- Expressions in a row, each regrouped. -/
def regroupedAll : List Expr → List Expr
  | [] => []
  | arg :: args => arg.regrouped :: regroupedAll args

end

/-- One more comparison in a chain is added to the end of its text. -/
theorem text_followedBy (relation : Relation) (right : Expr) : ∀ e : Expr,
    (followedBy relation right e).text =
      e.text ++ " " ++ relation.symbol ++ " " ++ right.text
  | not inner => by
    simp only [followedBy, text, text_followedBy relation right inner, String.append_assoc]
  | compare left first rest => by
    simp only [followedBy, text, text_followedBy relation right rest, String.append_assoc]
  | bool _ => by simp only [followedBy, text]
  | int _ => rfl
  | var _ => rfl
  | call _ _ _ => rfl
  | binary _ _ _ => rfl

mutual

/-- Regrouping does not show in the text. -/
theorem text_regrouped : ∀ e : Expr, e.regrouped.text = e.text
  | bool _ => by rw [regrouped]
  | int _ => by rw [regrouped]
  | var _ => by rw [regrouped]
  | call callee args duration => by
    rw [regrouped, text, text, argsText_regroupedAll args]
  | not inner => by rw [regrouped, text, text, text_regrouped inner]
  | compare left relation right => by
    rw [regrouped, text_followedBy, text, text_regrouped left, text_regrouped right]
  | binary left op right => by
    rw [regrouped, text, text, text_regrouped left, text_regrouped right]

theorem argsText_regroupedAll : ∀ args : List Expr, argsText (regroupedAll args) = argsText args
  | [] => by rw [regroupedAll]
  | [arg] => by
    rw [regroupedAll, regroupedAll, argsText, argsText, text_regrouped arg]
  | arg :: next :: args => by
    have hrest := argsText_regroupedAll (next :: args)
    rw [regroupedAll] at hrest
    simp only [regroupedAll, argsText, text_regrouped arg, hrest]

end

/-! ## The grammar of regrouped expressions -/

mutual

/-- What can stand on the left of a relation: all but comparisons and negations. -/
inductive Operand : Expr → Prop
  | bool (value : Bool) : Operand (.bool value)
  | int (value : Int64) : Operand (.int value)
  | var {name : String} (hname : isName name = true) : Operand (.var name)
  | call {callee : String} {args : List Expr} (hname : isName callee = true)
      (hargs : ∀ arg ∈ args, Chain arg) : Operand (.call callee args .zero)
  | binary {left right : Expr} (op : BinaryOp) (hleft : Chain left) (hright : Chain right) :
      Operand (.binary left op right)

/-- A chain of negations and comparisons that ends in an operand. -/
inductive Chain : Expr → Prop
  | operand {e : Expr} (he : Operand e) : Chain e
  | not {inner : Expr} (hinner : Chain inner) : Chain (.not inner)
  | compare {left right : Expr} (relation : Relation) (hleft : Operand left)
      (hright : Chain right) : Chain (.compare left relation right)

end

/-- A chain with one more comparison at its end is a chain. -/
theorem Chain.followedBy {right : Expr} (relation : Relation) (hright : Chain right) :
    ∀ {e : Expr}, Chain e → Chain (Expr.followedBy relation right e)
  | .not inner, h => by
    cases h with
    | operand he => cases he
    | not hinner => exact .not (Chain.followedBy relation hright hinner)
  | .compare left first rest, h => by
    cases h with
    | operand he => cases he
    | compare _ hleft hrest => exact .compare first hleft (Chain.followedBy relation hright hrest)
  | .bool _, .operand he => .compare relation he hright
  | .int _, .operand he => .compare relation he hright
  | .var _, .operand he => .compare relation he hright
  | .call _ _ _, .operand he => .compare relation he hright
  | .binary _ _ _, .operand he => .compare relation he hright

mutual

/-- A named expression, regrouped, follows the grammar. -/
theorem chain_regrouped : ∀ {e : Expr}, e.isNamed = true → Chain e.regrouped
  | bool value, _ => .operand (.bool value)
  | int value, _ => .operand (.int value)
  | var _, h => .operand (.var h)
  | call callee args duration, h => by
    simp only [isNamed, Bool.and_eq_true, decide_eq_true_eq] at h
    obtain ⟨⟨hname, rfl⟩, hargs⟩ := h
    exact .operand (.call hname (chain_of_mem_regroupedAll hargs))
  | not inner, h => .not (chain_regrouped (e := inner) h)
  | compare left relation right, h => by
    obtain ⟨hleft, hright⟩ := Bool.and_eq_true_iff.1 h
    exact .followedBy relation (chain_regrouped hright) (chain_regrouped hleft)
  | binary left op right, h => by
    obtain ⟨hleft, hright⟩ := Bool.and_eq_true_iff.1 h
    exact .operand (.binary op (chain_regrouped hleft) (chain_regrouped hright))

/-- Arguments are chains once they are regrouped. -/
theorem chain_of_mem_regroupedAll : ∀ {args : List Expr}, areNamed args = true →
    ∀ arg ∈ regroupedAll args, Chain arg
  | [], _, arg, harg => by cases harg
  | first :: rest, h, arg, harg => by
    obtain ⟨hfirst, hrest⟩ := Bool.and_eq_true_iff.1 h
    rcases List.mem_cons.1 harg with rfl | harg
    · exact chain_regrouped hfirst
    · exact chain_of_mem_regroupedAll hrest arg harg

end

/-! ## The leading word of an operand -/

/-- The word that an operand begins with; it is empty if the operand begins with a parenthesis. -/
def word : Expr → List Char
  | call callee _ _ => callee.toList
  | binary _ _ _ => []
  | e => e.text.toList

/-- The text of an operand after its leading word. -/
def afterWord : Expr → List Char
  | call _ args _ => '(' :: ((argsText args).toList ++ [')'])
  | binary left op right =>
    '(' :: (left.text.toList ++ ' ' :: (op.symbol.toList ++ ' ' :: (right.text.toList ++ [')'])))
  | _ => []

theorem toList_text (e : Expr) : e.text.toList = e.word ++ e.afterWord := by
  cases e <;> simp [word, afterWord, text]

/-- A negation is the word `not`, a space and what is negated. -/
theorem text_not_append (inner : Expr) (rest : List Char) :
    (not inner).text.toList ++ rest = "not".toList ++ ' ' :: (inner.text.toList ++ rest) := by
  simp [text]

/-- A comparison is its left side, the relation between two spaces, and its right side. -/
theorem text_compare_append (left : Expr) (relation : Relation) (right : Expr)
    (rest : List Char) :
    (compare left relation right).text.toList ++ rest = left.text.toList ++
      ' ' :: (relation.symbol.toList ++ ' ' :: (right.text.toList ++ rest)) := by
  simp [text]

/-- What follows an operand: nothing, or a character that ends a word and opens no argument list. -/
def Stops (rest : List Char) : Prop := ∀ c ∈ rest.head?, endsWord c = true ∧ c ≠ '('

theorem Stops.apart {rest : List Char} (h : Stops rest) : Apart rest := fun c hc => (h c hc).1

/-- The leading word of an operand ends where its text goes on. -/
theorem Stops.apart_afterWord {rest : List Char} (h : Stops rest) (e : Expr) :
    Apart (e.afterWord ++ rest) := by
  cases e with
  | call | binary =>
    rintro c ⟨rfl⟩
    rfl
  | bool | int | var | not | compare => exact h.apart

theorem stops_cons {c : Char} (hc : endsWord c = true) (hopen : c ≠ '(') (rest : List Char) :
    Stops (c :: rest) := by
  rintro d ⟨rfl⟩
  exact ⟨hc, hopen⟩

/-- No character of the leading word of an operand ends a word. -/
theorem Operand.endsWord_of_mem_word {e : Expr} (he : Operand e) :
    ∀ c ∈ e.word, endsWord c = false := by
  cases he with
  | bool value => cases value <;> simp [word, text, endsWord]
  | int value =>
    intro c hc
    exact endsWord_eq_false (isIntegerChar_of_mem_toString hc) (by decide)
  | var hname => exact fun c hc => endsWord_of_mem_name hname hc
  | call hname _ => exact fun c hc => endsWord_of_mem_name hname hc
  | binary => exact fun c hc => absurd hc List.not_mem_nil

/-- The kinds of operands. -/
inductive OperandKind where
  | bool
  | int
  | var
  | call
  | binary
deriving DecidableEq

/-- The kind of an operand, read off its leading word and what follows it. -/
def OperandKind.ofWord (word rest : List Char) : OperandKind :=
  if word = [] then binary
  else if rest.head? = some '(' then call
  else if word = "True".toList ∨ word = "False".toList then bool
  else if word.head?.any isIntegerChar then int
  else var

/-- The kind of an expression that is an operand. -/
def operandKind? : Expr → Option OperandKind
  | .bool _ => some .bool
  | .int _ => some .int
  | .var _ => some .var
  | .call _ _ _ => some .call
  | .binary _ _ _ => some .binary
  | .not _ => none
  | .compare _ _ _ => none

/-- The kind of an operand can be told from its leading word and what follows it. -/
theorem Operand.operandKind?_eq {e : Expr} (he : Operand e) {rest : List Char}
    (hrest : Stops rest) :
    e.operandKind? = some (.ofWord e.word (e.afterWord ++ rest)) := by
  have hopen : rest.head? ≠ some '(' := fun h => (hrest '(' h).2 rfl
  cases he with
  | bool value =>
    cases value <;> simp [operandKind?, OperandKind.ofWord, word, afterWord, text, hopen]
  | int value =>
    obtain ⟨c, cs, hword⟩ := List.exists_cons_of_ne_nil (toList_toString_ne_nil value.toInt)
    have hmem : c ∈ (toString value.toInt).toList := by
      rw [hword]
      exact .head cs
    have hc := isIntegerChar_of_mem_toString hmem
    have htrue : c ≠ 'T' := by
      rintro rfl
      cases hc
    have hfalse : c ≠ 'F' := by
      rintro rfl
      cases hc
    simp only [operandKind?, OperandKind.ofWord, word, afterWord, text, List.nil_append, hword,
      if_false, hopen, htrue, hfalse, or_self, List.head?_cons, Option.any_some, hc, if_true,
      reduceCtorEq, String.reduceToList, List.cons.injEq, false_and]
  | @var name hname =>
    obtain ⟨c, cs, hword, hc, -⟩ := exists_cons_of_isName hname
    have htrue : name.toList ≠ "True".toList := toList_ne_of_isName hname (by decide)
    have hfalse : name.toList ≠ "False".toList := toList_ne_of_isName hname (by decide)
    rw [hword] at htrue hfalse
    simp only [operandKind?, OperandKind.ofWord, word, afterWord, text, List.nil_append, hword,
      List.cons_ne_nil, if_false, hopen, htrue, hfalse, or_self, List.head?_cons, Option.any_some,
      hc, Bool.false_eq_true]
  | call hname _ =>
    obtain ⟨c, cs, hword, -, -⟩ := exists_cons_of_isName hname
    simp [operandKind?, OperandKind.ofWord, word, afterWord, hword]
  | binary => rfl

/-- Operands with the same text, up to what follows them, are of one kind and agree in their leading
words and in what comes after these. -/
theorem Operand.agree {e e' : Expr} (he : Operand e) (he' : Operand e') {rest rest' : List Char}
    (hrest : Stops rest) (hrest' : Stops rest')
    (h : e.text.toList ++ rest = e'.text.toList ++ rest') :
    e.operandKind? = e'.operandKind? ∧ e.word = e'.word ∧
      e.afterWord ++ rest = e'.afterWord ++ rest' := by
  rw [toList_text e, toList_text e', List.append_assoc, List.append_assoc] at h
  obtain ⟨hword, hafter⟩ := word_append_inj (hrest.apart_afterWord e) (hrest'.apart_afterWord e')
    he.endsWord_of_mem_word he'.endsWord_of_mem_word h
  refine ⟨?_, hword, hafter⟩
  rw [he.operandKind?_eq hrest, he'.operandKind?_eq hrest', hword, hafter]

/-- No operand begins with the word of negation. -/
theorem Operand.word_ne_not {e : Expr} (he : Operand e) : e.word ≠ "not".toList := by
  cases he with
  | bool value => cases value <;> simp [word, text]
  | int value =>
    intro hword
    have hn : 'n' ∈ (toString value.toInt).toList := by
      rw [show (toString value.toInt).toList = _ from hword]
      simp
    cases isIntegerChar_of_mem_toString hn
  | var hname => exact toList_ne_of_isName hname (by decide)
  | call hname _ => exact toList_ne_of_isName hname (by decide)
  | binary => simp [word]

/-- No text begins both with an operand and with a negation. -/
theorem Operand.append_ne_not {e inner : Expr} (he : Operand e) {rest rest' : List Char}
    (hrest : Stops rest) :
    e.text.toList ++ rest ≠ (Expr.not inner).text.toList ++ rest' := by
  intro h
  rw [toList_text e, text_not_append, List.append_assoc] at h
  exact he.word_ne_not (word_append_inj (hrest.apart_afterWord e) (apart_space _)
    he.endsWord_of_mem_word (by simp [endsWord]) h).1

/-! ## Reading -/

/-- What follows a chain: it ends an operand and does not go on with a relation. -/
structure Ends (rest : List Char) : Prop where
  stops : Stops rest
  no_relation : ∀ (relation : Relation) (more : List Char),
    rest ≠ ' ' :: (relation.symbol.toList ++ ' ' :: more)

theorem ends_nil : Ends [] := by
  constructor
  · rintro c ⟨⟩
  · rintro relation more ⟨⟩

/-- An argument ends at the parenthesis that closes the call. -/
theorem ends_close (rest : List Char) : Ends (')' :: rest) := by
  constructor
  · exact stops_cons rfl (by decide) rest
  · rintro relation more ⟨⟩

/-- An argument ends at a comma. -/
theorem ends_comma (rest : List Char) : Ends (',' :: rest) := by
  constructor
  · exact stops_cons rfl (by decide) rest
  · rintro relation more ⟨⟩

theorem stops_space (rest : List Char) : Stops (' ' :: rest) := stops_cons rfl (by decide) rest

theorem endsWord_of_mem_relation (relation : Relation) :
    ∀ c ∈ relation.symbol.toList, endsWord c = false := by
  cases relation <;> simp [Relation.symbol, endsWord]

theorem endsWord_of_mem_op (op : BinaryOp) : ∀ c ∈ op.symbol.toList, endsWord c = false := by
  cases op <;> simp [BinaryOp.symbol, endsWord]

/-- Relations differ in their symbols. -/
theorem relation_of_symbol_eq {r r' : Relation} (h : r.symbol = r'.symbol) : r = r' := by
  revert h
  cases r <;> cases r' <;> decide

/-- So do operations. -/
theorem op_of_symbol_eq {op op' : BinaryOp} (h : op.symbol = op'.symbol) : op = op' := by
  revert h
  cases op <;> cases op' <;> decide

/-- A binary operation after a chain is not taken for a relation. -/
theorem ends_op (op : BinaryOp) (rest : List Char) :
    Ends (' ' :: (op.symbol.toList ++ ' ' :: rest)) := by
  refine ⟨stops_space _, fun relation more h => ?_⟩
  obtain ⟨hsymbols, -⟩ := word_append_inj (apart_space rest) (apart_space more)
    (endsWord_of_mem_op op) (endsWord_of_mem_relation relation) (List.cons.inj h).2
  have hne : op.symbol ≠ relation.symbol := by cases op <;> cases relation <;> decide
  exact hne (String.toList_inj.1 hsymbols)

/-- An operand can be read off every text that begins with it. -/
def ReadsOperand (e : Expr) : Prop :=
  ∀ ⦃e' : Expr⦄ ⦃rest rest' : List Char⦄, Operand e' → Stops rest → Stops rest' →
    e.text.toList ++ rest = e'.text.toList ++ rest' → e = e' ∧ rest = rest'

/-- A chain can be read off every text that begins with it. -/
def ReadsChain (e : Expr) : Prop :=
  ∀ ⦃e' : Expr⦄ ⦃rest rest' : List Char⦄, Chain e' → Ends rest → Ends rest' →
    e.text.toList ++ rest = e'.text.toList ++ rest' → e = e' ∧ rest = rest'

theorem readsOperand_bool (value : Bool) : ReadsOperand (bool value) := by
  intro e' rest rest' he' hrest hrest' h
  obtain ⟨hkind, hword, hafter⟩ := Operand.agree (.bool value) he' hrest hrest' h
  cases he' with
  | bool value' =>
    refine ⟨?_, hafter⟩
    cases value <;> cases value' <;> simp [word, text] at hword ⊢
  | int | var | call | binary => cases hkind

/-- An integer is read off the texts that begin with it: what follows is not taken for a digit. -/
theorem readsOperand_int (value : Int64) : ReadsOperand (int value) := by
  intro e' rest rest' he' hrest hrest' h
  obtain ⟨hkind, hword, hafter⟩ := Operand.agree (.int value) he' hrest hrest' h
  cases he' with
  | int value' =>
    have hvalues : value.toInt = value'.toInt := eq_of_toList_toString_eq hword
    exact ⟨congrArg int (Int64.toInt_inj.1 hvalues), hafter⟩
  | bool | var | call | binary => cases hkind

/-- A variable is read off the texts that begin with it. -/
theorem readsOperand_var {name : String} (hname : isName name = true) :
    ReadsOperand (var name) := by
  intro e' rest rest' he' hrest hrest' h
  obtain ⟨hkind, hword, hafter⟩ := Operand.agree (.var hname) he' hrest hrest' h
  cases he' with
  | var _ => exact ⟨congrArg var (String.toList_inj.1 hword), hafter⟩
  | bool | int | call | binary => cases hkind

/-! ### Arguments -/

/-- The text of a call after one of its arguments, to the end of the call. -/
def afterArg : List Expr → List Char
  | [] => [')']
  | arg :: args => ',' :: ' ' :: (arg.text.toList ++ afterArg args)

/-- The arguments of a call up to its end, split after the first one. -/
theorem argsText_append : ∀ (arg : Expr) (args : List Expr),
    (argsText (arg :: args)).toList ++ [')'] = arg.text.toList ++ afterArg args
  | _, [] => by simp only [argsText, afterArg]
  | arg, next :: args => by
    have hrest := argsText_append next args
    simp only [argsText, afterArg, String.toList_append, List.append_assoc, hrest]
    simp

/-- What follows an argument in a call ends it. -/
theorem ends_afterArg (args : List Expr) (rest : List Char) : Ends (afterArg args ++ rest) := by
  cases args with
  | nil => exact ends_close rest
  | cons => exact ends_comma _

/-- No operand begins with a closing parenthesis. -/
theorem Operand.head?_ne_close {e : Expr} (he : Operand e) (rest : List Char) :
    (e.text.toList ++ rest).head? ≠ some ')' := by
  rw [toList_text e]
  cases hword : e.word with
  | cons c cs =>
    intro h
    obtain rfl : c = ')' := Option.some.inj h
    have hends := he.endsWord_of_mem_word ')' (hword ▸ .head cs)
    cases hends
  | nil =>
    -- an operand without a leading word is a binary operation, which begins with a parenthesis
    have hkind := he.operandKind?_eq ends_nil.stops
    rw [hword] at hkind
    cases he with
    | binary => simp [afterWord]
    | bool | int | var | call => cases hkind

/-- Nor does a chain, so a call without arguments is told apart from all others. -/
theorem Chain.head?_ne_close {e : Expr} (he : Chain e) (rest : List Char) :
    (e.text.toList ++ rest).head? ≠ some ')' := by
  cases he with
  | operand he => exact he.head?_ne_close rest
  | not => simp [text_not_append]
  | compare _ hleft _ =>
    rw [text_compare_append]
    exact hleft.head?_ne_close _

/-- The arguments that are left can be read off the text after one of them. -/
theorem afterArg_inj {args : List Expr} (hreads : ∀ arg ∈ args, ReadsChain arg) :
    ∀ {args' : List Expr} {rest rest' : List Char}, (∀ arg ∈ args', Chain arg) →
      afterArg args ++ rest = afterArg args' ++ rest' → args = args' ∧ rest = rest' := by
  induction args with
  | nil =>
    intro args' rest rest' _ h
    cases args' with
    | nil => exact ⟨rfl, (List.cons.inj h).2⟩
    | cons => cases (List.cons.inj h).1
  | cons arg args ih =>
    intro args' rest rest' hargs' h
    cases args' with
    | nil => cases (List.cons.inj h).1
    | cons arg' args' =>
      simp only [afterArg, List.cons_append, List.append_assoc, List.cons.injEq, true_and] at h
      obtain ⟨rfl, htail⟩ := hreads arg (.head _) (hargs' arg' (.head _))
        (ends_afterArg args rest) (ends_afterArg args' rest') h
      obtain ⟨rfl, hrests⟩ := ih (fun a ha => hreads a (.tail _ ha))
        (fun a ha => hargs' a (.tail _ ha)) htail
      exact ⟨rfl, hrests⟩

/-- The arguments of a call can be read off its text if each of them can. -/
theorem argsText_inj {args args' : List Expr} {rest rest' : List Char}
    (hargs : ∀ arg ∈ args, Chain arg) (hargs' : ∀ arg ∈ args', Chain arg)
    (hreads : ∀ arg ∈ args, ReadsChain arg)
    (h : ((argsText args).toList ++ [')']) ++ rest = ((argsText args').toList ++ [')']) ++ rest') :
    args = args' ∧ rest = rest' := by
  cases args with
  | nil =>
    cases args' with
    | nil => exact ⟨rfl, (List.cons.inj h).2⟩
    | cons arg' args' =>
      rw [argsText_append arg' args', List.append_assoc _ _ rest'] at h
      exact absurd (congrArg List.head? h).symm ((hargs' arg' (.head _)).head?_ne_close _)
  | cons arg args =>
    rw [argsText_append arg args] at h
    cases args' with
    | nil =>
      rw [List.append_assoc] at h
      exact absurd (congrArg List.head? h) ((hargs arg (.head _)).head?_ne_close _)
    | cons arg' args' =>
      rw [argsText_append arg' args'] at h
      exact afterArg_inj hreads hargs' (congrArg (fun cs => ',' :: ' ' :: cs) h)

/-- A call can be read off the texts that begin with it if its arguments can. -/
theorem readsOperand_call {callee : String} {args : List Expr} (hname : isName callee = true)
    (hargs : ∀ arg ∈ args, Chain arg) (hreads : ∀ arg ∈ args, ReadsChain arg) :
    ReadsOperand (call callee args .zero) := by
  intro e' rest rest' he' hrest hrest' h
  obtain ⟨hkind, hword, hafter⟩ := Operand.agree (.call hname hargs) he' hrest hrest' h
  cases he' with
  | call _ hargs' =>
    obtain ⟨rfl, hrests⟩ := argsText_inj hargs hargs' hreads (List.cons.inj hafter).2
    exact ⟨congrArg (call · args .zero) (String.toList_inj.1 hword), hrests⟩
  | bool | int | var | binary => cases hkind

/-! ### Operations and chains -/

/-- A binary operation can be read off the texts that begin with it if both sides can, since its
parenthesis ends the right one. -/
theorem readsOperand_binary {left right : Expr} (op : BinaryOp) (hleft : Chain left)
    (hright : Chain right) (hreadsLeft : ReadsChain left) (hreadsRight : ReadsChain right) :
    ReadsOperand (binary left op right) := by
  intro e' rest rest' he' hrest hrest' h
  obtain ⟨hkind, -, hafter⟩ := Operand.agree (.binary op hleft hright) he' hrest hrest' h
  cases he' with
  | @binary left' right' op' hleft' hright' =>
    simp only [afterWord, List.cons_append, List.append_assoc, List.cons.injEq, true_and,
      List.nil_append] at hafter
    obtain ⟨rfl, hops⟩ := hreadsLeft hleft' (ends_op op _) (ends_op op' _) hafter
    obtain ⟨hsymbols, hrights⟩ := word_append_inj (apart_space _) (apart_space _)
      (endsWord_of_mem_op op) (endsWord_of_mem_op op') (List.cons.inj hops).2
    obtain rfl := op_of_symbol_eq (String.toList_inj.1 hsymbols)
    obtain ⟨rfl, hcloses⟩ := hreadsRight hright' (ends_close _) (ends_close _)
      (List.cons.inj hrights).2
    exact ⟨rfl, (List.cons.inj hcloses).2⟩
  | bool | int | var | call => cases hkind

/-- An operand that can be read as such is also read where a chain may stand. -/
theorem ReadsOperand.readsChain {e : Expr} (he : Operand e) (hreads : ReadsOperand e) :
    ReadsChain e := by
  intro e' rest rest' he' hrest hrest' h
  cases he' with
  | operand he' => exact hreads he' hrest.stops hrest'.stops h
  | not => exact absurd h (he.append_ne_not hrest.stops)
  | compare relation hleft _ =>
    -- the comparison on the other side would have to go on in the rest
    rw [text_compare_append] at h
    obtain ⟨-, hrests⟩ := hreads hleft hrest.stops (stops_space _) h
    exact absurd hrests (hrest.no_relation relation _)

/-- A negation is read if what it negates is. -/
theorem ReadsChain.not {inner : Expr} (hreads : ReadsChain inner) : ReadsChain (.not inner) := by
  intro e' rest rest' he' hrest hrest' h
  cases he' with
  | operand he' => exact absurd h.symm (he'.append_ne_not hrest'.stops)
  | not hinner' =>
    rw [text_not_append, text_not_append] at h
    have hinners := (List.cons.inj (List.append_cancel_left h)).2
    obtain ⟨rfl, hrests⟩ := hreads hinner' hrest hrest' hinners
    exact ⟨rfl, hrests⟩
  | compare relation hleft _ =>
    rw [text_compare_append] at h
    exact absurd h.symm (hleft.append_ne_not (stops_space _))

/-- A comparison is read if both of its sides are: the left one ends at the relation. -/
theorem ReadsChain.compare {left right : Expr} (relation : Relation) (hleft : Operand left)
    (hreadsLeft : ReadsOperand left) (hreadsRight : ReadsChain right) :
    ReadsChain (.compare left relation right) := by
  intro e' rest rest' he' hrest hrest' h
  rw [text_compare_append] at h
  cases he' with
  | operand he' =>
    obtain ⟨-, hrests⟩ := hreadsLeft he' (stops_space _) hrest'.stops h
    exact absurd hrests.symm (hrest'.no_relation relation _)
  | not => exact absurd h (hleft.append_ne_not (stops_space _))
  | compare relation' hleft' hright' =>
    rw [text_compare_append] at h
    obtain ⟨rfl, hrelations⟩ := hreadsLeft hleft' (stops_space _) (stops_space _) h
    obtain ⟨hsymbols, hrights⟩ := word_append_inj (apart_space _) (apart_space _)
      (endsWord_of_mem_relation relation) (endsWord_of_mem_relation relation')
      (List.cons.inj hrelations).2
    obtain rfl := relation_of_symbol_eq (String.toList_inj.1 hsymbols)
    obtain ⟨rfl, hrests⟩ := hreadsRight hright' hrest hrest' (List.cons.inj hrights).2
    exact ⟨rfl, hrests⟩

mutual

/-- Every operand can be read off the texts that begin with it. -/
theorem Operand.reads {e : Expr} : Operand e → ReadsOperand e
  | .bool value => readsOperand_bool value
  | .int value => readsOperand_int value
  | .var hname => readsOperand_var hname
  | .call hname hargs => readsOperand_call hname hargs fun arg harg => (hargs arg harg).reads
  | .binary op hleft hright => readsOperand_binary op hleft hright hleft.reads hright.reads

/-- So can every chain. -/
theorem Chain.reads {e : Expr} : Chain e → ReadsChain e
  | .operand he => he.reads.readsChain he
  | .not hinner => hinner.reads.not
  | .compare relation hleft hright => .compare relation hleft hleft.reads hright.reads

end

/-- Chains can be read back from their texts. -/
theorem Chain.eq_of_text_eq {e e' : Expr} (he : Chain e) (he' : Chain e')
    (h : e.text = e'.text) : e = e' := by
  have htexts : e.text.toList ++ [] = e'.text.toList ++ [] := by rw [h]
  exact (he.reads he' ends_nil ends_nil htexts).1

/-- Expressions that are regrouped to the same one have the same text. -/
theorem text_eq_of_regrouped_eq {e e' : Expr} (h : e.regrouped = e'.regrouped) :
    e.text = e'.text := by
  rw [← text_regrouped e, h, text_regrouped]

/-- The texts of two named expressions are equal if and only if the expressions differ in the
grouping of their comparisons and negations at most. -/
theorem text_eq_iff {e e' : Expr} (he : e.isNamed = true) (he' : e'.isNamed = true) :
    e.text = e'.text ↔ e.regrouped = e'.regrouped := by
  refine ⟨?_, text_eq_of_regrouped_eq⟩
  intro h
  rw [← text_regrouped e, ← text_regrouped e'] at h
  exact (chain_regrouped he).eq_of_text_eq (chain_regrouped he') h

/-! ## Expressions with nothing to regroup -/

mutual

/-- Whether no comparison in an expression has a comparison or a negation on its left. -/
def comparesOperands : Expr → Bool
  | bool _ => true
  | int _ => true
  | var _ => true
  | call _ args _ => compareOperands args
  | not inner => inner.comparesOperands
  | compare left _ right =>
    left.operandKind?.isSome && left.comparesOperands && right.comparesOperands
  | binary left _ right => left.comparesOperands && right.comparesOperands

/-- Whether so it is in all expressions of a list. -/
def compareOperands : List Expr → Bool
  | [] => true
  | arg :: args => arg.comparesOperands && compareOperands args

end

/-- After an operand, a comparison stands where it stood. -/
theorem followedBy_of_operandKind {left : Expr} (h : left.operandKind?.isSome = true)
    (relation : Relation) (right : Expr) :
    followedBy relation right left = compare left relation right := by
  cases left with
  | not | compare => cases h
  | bool | int | var | call | binary => rfl

mutual

/-- Regrouping changes nothing where every comparison has an operand on its left. -/
theorem regrouped_eq_self : ∀ {e : Expr}, e.comparesOperands = true → e.regrouped = e
  | bool _, _ => rfl
  | int _, _ => rfl
  | var _, _ => rfl
  | call callee args duration, h => congrArg (call callee · duration) (regroupedAll_eq_self h)
  | not _, h => congrArg not (regrouped_eq_self h)
  | compare left relation right, h => by
    obtain ⟨hleft, hright⟩ := Bool.and_eq_true_iff.1 h
    obtain ⟨hoperand, hleft⟩ := Bool.and_eq_true_iff.1 hleft
    rw [regrouped, regrouped_eq_self hleft, regrouped_eq_self hright,
      followedBy_of_operandKind hoperand]
  | binary left op right, h => by
    obtain ⟨hleft, hright⟩ := Bool.and_eq_true_iff.1 h
    rw [regrouped, regrouped_eq_self hleft, regrouped_eq_self hright]

theorem regroupedAll_eq_self : ∀ {args : List Expr}, compareOperands args = true →
    regroupedAll args = args
  | [], _ => rfl
  | arg :: args, h => by
    obtain ⟨harg, hargs⟩ := Bool.and_eq_true_iff.1 h
    rw [regroupedAll, regrouped_eq_self harg, regroupedAll_eq_self hargs]

end

/-! ## Stores -/

/-- A value computed at run time is stored as its text. -/
theorem lower_runtime (s : Lowerer) (location : Location) (target : String) (value : Expr) :
    s.lower [.assign location target value .runtime] =
      (.ok [.op (.store target value.text)], s) := rfl

/-- Values that are regrouped to the same one are lowered to the same code. -/
theorem lower_eq_of_regrouped_eq {e e' : Expr} (h : e.regrouped = e'.regrouped) (s : Lowerer)
    (location : Location) (target : String) :
    s.lower [.assign location target e .runtime] =
      s.lower [.assign location target e' .runtime] := by
  rw [lower_runtime, lower_runtime, text_eq_of_regrouped_eq h]

/-- The stores of two values are the same if and only if the values differ in the grouping of their
comparisons and negations at most. Values in which no comparison has a comparison or a negation on
its left are told apart by their stores. -/
theorem stores_agree_iff_regrouped {e e' : Expr} (he : e.isNamed = true)
    (he' : e'.isNamed = true) :
    (e.text = e'.text ↔ e.regrouped = e'.regrouped) ∧
    (∀ (s s' : Lowerer) (location location' : Location) (target : String),
      (s.lower [.assign location target e .runtime]).1 = .ok [.op (.store target e.text)] ∧
      ((s.lower [.assign location target e .runtime]).1 =
          (s'.lower [.assign location' target e' .runtime]).1 ↔
        e.regrouped = e'.regrouped)) ∧
    (e.comparesOperands = true → e'.comparesOperands = true → (e.text = e'.text ↔ e = e')) := by
  refine ⟨text_eq_iff he he', ?_, ?_⟩
  · intro s s' location location' target
    rw [lower_runtime, lower_runtime, ← text_eq_iff he he']
    simp
  · intro hplain hplain'
    rw [text_eq_iff he he', regrouped_eq_self hplain, regrouped_eq_self hplain']

/-- The call `f(-1, (a - 2))`. -/
def nestedCall : Expr := .call "f" [.int (-1), .binary (.var "a") .sub (.int 2)] .zero

/-- A call is compared and the comparison negated, or the call is negated and the negation compared:
the stores are the same. The negation on the right of the comparison is told apart. -/
theorem nestedCall_stores_agree :
    (not (compare nestedCall .lt (var "b"))).isNamed = true ∧
      (compare (not nestedCall) .lt (var "b")).isNamed = true ∧
      (compare nestedCall .lt (not (var "b"))).isNamed = true ∧
      (not (compare nestedCall .lt (var "b"))).text =
        (compare (not nestedCall) .lt (var "b")).text ∧
      (not (compare nestedCall .lt (var "b"))).text ≠
        (compare nestedCall .lt (not (var "b"))).text := by
  have hnot : (not (compare nestedCall .lt (var "b"))).isNamed = true := by decide
  have hleft : (compare (not nestedCall) .lt (var "b")).isNamed = true := by decide
  have hright : (compare nestedCall .lt (not (var "b"))).isNamed = true := by decide
  refine ⟨hnot, hleft, hright, ?_, ?_⟩
  · exact (stores_agree_iff_regrouped hnot hleft).1.2 rfl
  · intro h
    cases ((stores_agree_iff_regrouped hnot hright).2.2 rfl rfl).1 h

/-- Different values have the same store: a negated comparison and a comparison of a negation, and
two comparisons in a row. -/
theorem regrouped_values_share_a_store :
    (isName "a" = true ∧ isName "b" = true ∧ isName "c" = true) ∧
    not (compare (var "a") .eq (var "b")) ≠ compare (not (var "a")) .eq (var "b") ∧
    compare (compare (var "a") .eq (var "b")) .lt (var "c") ≠
      compare (var "a") .eq (compare (var "b") .lt (var "c")) ∧
    ∀ (s : Lowerer) (location : Location) (target : String),
      s.lower [.assign location target (not (compare (var "a") .eq (var "b"))) .runtime] =
        s.lower [.assign location target (compare (not (var "a")) .eq (var "b")) .runtime] ∧
      s.lower [.assign location target
          (compare (compare (var "a") .eq (var "b")) .lt (var "c")) .runtime] =
        s.lower [.assign location target
          (compare (var "a") .eq (compare (var "b") .lt (var "c"))) .runtime] := by
  refine ⟨⟨by decide, by decide, by decide⟩, by simp, by simp, ?_⟩
  intro s location target
  exact ⟨lower_eq_of_regrouped_eq rfl s location target,
    lower_eq_of_regrouped_eq rfl s location target⟩

end Expr

end Lockstep
