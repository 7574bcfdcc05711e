import Lockstep.Yaml.Scalar

/-!
# YAML tokens

The marks and scalars of a text, with the starts and ends of block collections, which are read off
columns. A key has no mark in front of it, so whatever may be one is remembered as a `Candidate`
until its colon is seen; the colon must stand on the same line and within 1024 bytes. In block
style a candidate in the column of its mapping must become a key.
-/

set_option autoImplicit false

namespace Lockstep.Yaml

/-- A token of a YAML text. -/
inductive Token where
  | documentStart
  | documentEnd
  | blockSeqStart
  | blockMapStart
  | blockEnd
  | flowSeqStart
  | flowSeqEnd
  | flowMapStart
  | flowMapEnd
  /-- The mark before an item of a block sequence. -/
  | blockEntry
  /-- The mark between items or entries of a flow collection. -/
  | flowEntry
  | key
  | value
  | plain (text : String)
  | quoted (text : String)
deriving DecidableEq

/-- Something that may turn out to be a key: the tokens before it, its place, and whether it must
become a key. -/
structure Candidate where
  position : Nat
  start : Glyph
  required : Bool

/-- How many bytes the colon may be from the start of its key. -/
def keyReach : Nat := 1024

/-- Whether a candidate can no longer become a key once a character is reached. -/
def Candidate.isLost (k : Candidate) (here : Glyph) : Bool :=
  k.start.line < here.line || k.start.offset + keyReach < here.offset

/-- What the scanner knows at a place of the text. -/
structure Scanner where
  /-- The tokens so far, the last one first. -/
  tokens : List Token
  /-- The columns of the open block collections, the innermost one first. -/
  columns : List Nat
  /-- Whether a key may start here. -/
  keyAllowed : Bool
  /-- The candidate inside the innermost brackets. -/
  candidate : Option Candidate
  /-- The candidates around the open flow brackets, the innermost one first. -/
  around : List (Option Candidate)

namespace Scanner

/-- The scanner at the start of a text. -/
def start : Scanner := ⟨[], [], true, none, []⟩

/-- Whether flow brackets are open. -/
def inFlow (s : Scanner) : Bool := !s.around.isEmpty

/-- One token more. -/
def push (s : Scanner) (t : Token) : Scanner := { s with tokens := t :: s.tokens }

/-- Give up the candidate; a required one cannot be given up. -/
def giveUp (s : Scanner) : Option Scanner :=
  if s.candidate.any (·.required) then none else some { s with candidate := none }

/-- Remember the token that starts here as a candidate, if a key may start here. -/
def remember (s : Scanner) (g : Glyph) : Option Scanner :=
  if s.keyAllowed then
    s.giveUp.map fun s =>
      let required := !s.inFlow && s.columns.head? == some g.column
      { s with candidate := some ⟨s.tokens.length, g, required⟩ }
  else some s

/-- A candidate after a character is reached, if it need not become a key or still can. -/
def keep (here : Glyph) : Option Candidate → Option (Option Candidate)
  | none => some none
  | some k => if !k.isLost here then some (some k) else if k.required then none else some none

/-- Drop the candidates that are lost once a character is reached. -/
def expire (s : Scanner) (here : Glyph) : Option Scanner := do
  let candidate ← keep here s.candidate
  let around ← s.around.mapM (keep here)
  return { s with candidate, around }

/-- Close the block collections that are to the right of a column. -/
def closeRightOf (s : Scanner) (column : Nat) : Scanner :=
  if s.inFlow then s
  else
    let closed := s.columns.takeWhile (column < ·)
    { s with
      tokens := closed.map (fun _ => .blockEnd) ++ s.tokens
      columns := s.columns.drop closed.length }

/-- Close all block collections. -/
def closeAll (s : Scanner) : Scanner :=
  if s.inFlow then s
  else { s with tokens := s.columns.map (fun _ => .blockEnd) ++ s.tokens, columns := [] }

/-- Whether a collection in a column would be inside the open ones. -/
def opensAt (s : Scanner) (column : Nat) : Bool :=
  !s.inFlow && s.columns.head?.all (· < column)

/-- Open a block collection in a column, unless it is open already. -/
def openBlock (s : Scanner) (column : Nat) (t : Token) : Scanner :=
  if s.opensAt column then { s.push t with columns := column :: s.columns } else s

/-- Put the mark of a key before a candidate; it may be the first key of a mapping. -/
def makeKey (s : Scanner) (k : Candidate) : Scanner :=
  let later := s.tokens.length - k.position
  let marks : List Token :=
    if s.opensAt k.start.column then [.key, .blockMapStart] else [.key]
  { s with
    tokens := s.tokens.take later ++ marks ++ s.tokens.drop later
    columns := if s.opensAt k.start.column then k.start.column :: s.columns else s.columns
    candidate := none
    keyAllowed := false }

/-! ## Single tokens -/

/-- The mark of a document. -/
def takeDocumentMark (s : Scanner) (t : Token) : Option Scanner :=
  s.closeAll.giveUp.map fun s => { s.push t with keyAllowed := false }

/-- The start of a flow collection. -/
def takeFlowStart (s : Scanner) (g : Glyph) (t : Token) : Option Scanner :=
  (s.remember g).map fun s =>
    { s.push t with keyAllowed := true, candidate := none, around := s.candidate :: s.around }

/-- The end of a flow collection. -/
def takeFlowEnd (s : Scanner) (t : Token) : Option Scanner :=
  s.giveUp.map fun s =>
    { s.push t with
      keyAllowed := false
      candidate := s.around.head?.join
      around := s.around.tail }

/-- The mark between items of a flow collection. -/
def takeFlowEntry (s : Scanner) : Option Scanner :=
  s.giveUp.map fun s => { s.push .flowEntry with keyAllowed := true }

/-- The mark before an item of a block sequence. -/
def takeBlockEntry (s : Scanner) (g : Glyph) : Option Scanner :=
  if !s.inFlow && !s.keyAllowed then none
  else
    (s.openBlock g.column .blockSeqStart).giveUp.map fun s =>
      { s.push .blockEntry with keyAllowed := true }

/-- The mark before a key. -/
def takeKey (s : Scanner) (g : Glyph) : Option Scanner :=
  if !s.inFlow && !s.keyAllowed then none
  else
    (s.openBlock g.column .blockMapStart).giveUp.map fun s =>
      { s.push .key with keyAllowed := !s.inFlow }

/-- The mark between a key and its value. Without a candidate the key is a collection that has ended
or is missing. -/
def takeValue (s : Scanner) (g : Glyph) : Option Scanner :=
  match s.candidate with
  | some k => some ((s.makeKey k).push .value)
  | none =>
    if !s.inFlow && !s.keyAllowed then none
    else
      let s := s.openBlock g.column .blockMapStart
      some { s.push .value with keyAllowed := !s.inFlow }

/-- A scalar in quotes. -/
def takeQuoted (s : Scanner) (g : Glyph) (rest : List Glyph) : Option (Scanner × List Glyph) := do
  let s ← s.remember g
  let scanned ← scanQuoted g.char [] .none .inside rest
  return ({ s.push (.quoted scanned.text) with keyAllowed := false }, scanned.rest)

/-- A plain scalar. After one that ends at a line end a key may start. -/
def takePlain (s : Scanner) (g : Glyph) (rest : List Glyph) : Option (Scanner × List Glyph) := do
  let s ← s.remember g
  let margin := (s.columns.head?.map (· + 1)).getD 0
  let scanned ← scanPlain s.inFlow margin [] .none (g :: rest)
  return ({ s.push (.plain scanned.text) with keyAllowed := scanned.broken }, scanned.rest)

/-! ## The whole text -/

/-- Pass over blanks, comments and line ends. In block style a key may start on a new line, and a
tab may not stand where a key may start. A byte order mark may start a line. -/
def skipGap (flow keyAllowed comment : Bool) : List Glyph → Bool × List Glyph
  | [] => (keyAllowed, [])
  | g :: rest =>
    if isBreak g.char then skipGap flow (keyAllowed || !flow) false rest
    else if comment then skipGap flow keyAllowed true rest
    else if g.char = '#' then skipGap flow keyAllowed true rest
    else if g.char = ' ' ∨ (g.char = '\t' ∧ (flow ∨ !keyAllowed)) ∨
        (g.char = byteOrderMark ∧ g.column = 0) then
      skipGap flow keyAllowed false rest
    else (keyAllowed, g :: rest)

/-- Take the token that starts with a character. -/
def take (s : Scanner) (g : Glyph) (rest : List Glyph) : Option (Scanner × List Glyph) :=
  let single (s : Option Scanner) : Option (Scanner × List Glyph) := s.map (·, rest)
  if atDocumentMark '-' (g :: rest) then
    (s.takeDocumentMark .documentStart).map (·, rest.drop 2)
  else if atDocumentMark '.' (g :: rest) then
    (s.takeDocumentMark .documentEnd).map (·, rest.drop 2)
  else if g.char = '[' then single (s.takeFlowStart g .flowSeqStart)
  else if g.char = '\x7b' then single (s.takeFlowStart g .flowMapStart)
  else if g.char = ']' then single (s.takeFlowEnd .flowSeqEnd)
  else if g.char = '\x7d' then single (s.takeFlowEnd .flowMapEnd)
  else if g.char = ',' then single s.takeFlowEntry
  else if g.char = '-' ∧ atGap rest then single (s.takeBlockEntry g)
  else if g.char = '?' ∧ (s.inFlow ∨ atGap rest) then single (s.takeKey g)
  else if g.char = ':' ∧ (s.inFlow ∨ atGap rest) then single (s.takeValue g)
  else if g.char = '"' ∨ g.char = '\'' then s.takeQuoted g rest
  else if startsPlain s.inFlow (g :: rest) then s.takePlain g rest
  else none

/-- The tokens at the end of a text; a required key must have been found. -/
def finish (s : Scanner) : Option (List Token) :=
  if (s.candidate :: s.around).any fun k => k.any (·.required) then none
  else some s.closeAll.tokens.reverse

/-- Scan to the end of the text in at most `steps` steps. -/
def run : (steps : Nat) → Scanner → List Glyph → Option (List Token)
  | 0, _, _ => none
  | steps + 1, s, text =>
    let (keyAllowed, text) := skipGap s.inFlow s.keyAllowed false text
    let s := { s with keyAllowed }
    match text with
    | [] => s.finish
    | g :: rest =>
      match s.expire g with
      | none => none
      | some s =>
        match (s.closeRightOf g.column).take g rest with
        | some (s, rest) => run steps s rest
        | none => none

end Scanner

/-- The tokens of a text. Every step but the last takes a character. -/
def tokens? (text : String) : Option (List Token) :=
  (glyphs? text).bind fun glyphs => Scanner.start.run (glyphs.length + 1) glyphs

end Lockstep.Yaml
