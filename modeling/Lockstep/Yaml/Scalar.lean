import Lockstep.Numeral
import Lockstep.Yaml.Glyph

/-!
# YAML scalars

A scalar may go over several lines. Blanks around a line end are no part of it; a single line end is
read as a blank, and of several the first one is left out. In double quotes a backslash starts an
escape, and before a line end it makes the lines join without a blank. Both scanners take one
character at a time.
-/

set_option autoImplicit false

namespace Lockstep.Yaml

/-! ## Gaps -/

/-- The blanks and line ends since the last character of a scalar. -/
inductive Gap where
  | none
  /-- Blanks on one line, in reverse. -/
  | blanks (reversed : List Char)
  /-- The first line end, unless it was escaped, and the further ones, in reverse. -/
  | breaks (first : Option Char) (reversed : List Char)
deriving DecidableEq

namespace Gap

/-- Whether there is a line end in a gap. -/
def isBroken : Gap → Bool
  | breaks _ _ => true
  | _ => false

/-- A gap with one character more. Blanks beside line ends are forgotten. -/
def add (c : Char) : Gap → Gap
  | none => if isBreak c then breaks (some c) [] else blanks [c]
  | blanks reversed => if isBreak c then breaks (some c) [] else blanks (c :: reversed)
  | breaks first reversed => breaks first (if isBreak c then c :: reversed else reversed)

/-- What a gap is read as, in reverse. -/
def reversedText : Gap → List Char
  | none => []
  | blanks reversed => reversed
  | breaks (some '\n') [] => [' ']
  | breaks (some '\n') reversed => reversed
  | breaks (some first) reversed => reversed ++ [first]
  | breaks Option.none reversed => reversed

end Gap

/-! ## Plain scalars -/

/-- The marks of flow collections. -/
def isFlowMark (c : Char) : Bool := c == ',' || c == '[' || c == ']' || c == '\x7b' || c == '\x7d'

/-- Whether a plain scalar may start here. -/
def startsPlain (flow : Bool) : List Glyph → Bool
  | [] => false
  | g :: rest =>
    if g.char = '-' then !atGap rest
    else if g.char = '?' ∨ g.char = ':' then !flow && !atGap rest
    else !(isGap g.char || isFlowMark g.char || "#&*!|>'\"%@`".contains g.char)

/-- Whether a colon stands before a flow mark or a question mark, which a plain scalar inside flow
brackets may not hold. -/
def clashes (g : Glyph) (rest : List Glyph) : Bool :=
  g.char == ':' && rest.head?.any fun next => next.char == '?' || isFlowMark next.char

/-- Whether a plain scalar ends before a character. -/
def endsPlain (flow : Bool) (g : Glyph) (rest : List Glyph) : Bool :=
  (g.char == ':' && atGap rest) || (flow && isFlowMark g.char)

/-- Whether a plain scalar ends at the gap before a character: a comment starts, or on a new line
the character is not far enough to the right or the document ends. -/
def endsAtGap (flow : Bool) (margin : Nat) (gap : Gap) (g : Glyph) (rest : List Glyph) : Bool :=
  gap != .none &&
    (g.char == '#' ||
      (gap.isBroken &&
        ((!flow && g.column < margin) ||
          atDocumentMark '-' (g :: rest) || atDocumentMark '.' (g :: rest))))

/-- A scalar that was read: its text, whether it ends at a line end, and the text after it. -/
structure Scanned where
  text : String
  broken : Bool
  rest : List Glyph

/-- A plain scalar, its characters so far in reverse. In block style lines after the first one start
at the margin or to the right of it, and a tab may not reach it. -/
def scanPlain (flow : Bool) (margin : Nat) (done : List Char) (gap : Gap) :
    List Glyph → Option Scanned
  | [] => some ⟨String.ofList done.reverse, gap.isBroken, []⟩
  | g :: rest =>
    if isGap g.char then
      if g.char = '\t' ∧ gap.isBroken ∧ g.column < margin then none
      else scanPlain flow margin done (gap.add g.char) rest
    else if endsAtGap flow margin gap g rest then
      some ⟨String.ofList done.reverse, gap.isBroken, g :: rest⟩
    else if flow ∧ clashes g rest then none
    else if endsPlain flow g rest then
      some ⟨String.ofList done.reverse, gap.isBroken, g :: rest⟩
    else scanPlain flow margin (g.char :: (gap.reversedText ++ done)) .none rest

/-! ## Quoted scalars -/

/-- The character with a code, unless it is a surrogate or none at all. -/
def charOfCode? (n : Nat) : Option Char := if n.isValidChar then some (Char.ofNat n) else none

/-- The character that a one-letter escape stands for. -/
def simpleEscape? : Char → Option Char
  | '0' => some '\x00'
  | 'a' => some '\x07'
  | 'b' => some '\x08'
  | 't' => some '\t'
  | '\t' => some '\t'
  | 'n' => some '\n'
  | 'v' => some '\x0b'
  | 'f' => some '\x0c'
  | 'r' => some '\r'
  | 'e' => some '\x1b'
  | ' ' => some ' '
  | '"' => some '"'
  | '/' => some '/'
  | '\\' => some '\\'
  | 'N' => some nextLine
  | '_' => some (Char.ofNat 0xa0)
  | 'L' => some (Char.ofNat 0x2028)
  | 'P' => some (Char.ofNat 0x2029)
  | _ => none

/-- The number of digits that follow the mark of a numeric escape. -/
def escapeWidth? : Char → Option Nat
  | 'x' => some 2
  | 'u' => some 4
  | 'U' => some 8
  | _ => none

/-- What a quoted scalar is in the middle of. -/
inductive Quoting where
  /-- Nothing but the scalar itself. -/
  | inside
  /-- A backslash was read. -/
  | escape
  /-- Hexadecimal digits are still to come after those of the given value. -/
  | code (remaining value : Nat)
  /-- The first of two single quotes was read. -/
  | doubled

/-- A quoted scalar up to its closing quote, its characters so far in reverse. -/
def scanQuoted (quote : Char) (done : List Char) (gap : Gap) : Quoting → List Glyph → Option Scanned
  | _, [] => none
  | .doubled, g :: rest => scanQuoted quote (g.char :: done) .none .inside rest
  | .code remaining value, g :: rest =>
    match Numeral.hexDigit? g.char with
    | none => none
    | some digit =>
      if 1 < remaining then
        scanQuoted quote done .none (.code (remaining - 1) (16 * value + digit)) rest
      else
        match charOfCode? (16 * value + digit) with
        | some c => scanQuoted quote (c :: done) .none .inside rest
        | none => none
  | .escape, g :: rest =>
    if isBreak g.char then scanQuoted quote done (.breaks none []) .inside rest
    else
      match simpleEscape? g.char, escapeWidth? g.char with
      | some c, _ => scanQuoted quote (c :: done) .none .inside rest
      | none, some width => scanQuoted quote done .none (.code width 0) rest
      | none, none => none
  | .inside, g :: rest =>
    let joined := gap.reversedText ++ done
    if isGap g.char then scanQuoted quote done (gap.add g.char) .inside rest
    else if atDocumentMark '-' (g :: rest) || atDocumentMark '.' (g :: rest) then none
    else if g.char = quote then
      if quote = '\'' ∧ rest.head?.any (·.char == '\'') then
        scanQuoted quote joined .none .doubled rest
      else some ⟨String.ofList joined.reverse, false, rest⟩
    else if quote = '"' ∧ g.char = '\\' then scanQuoted quote joined .none .escape rest
    else scanQuoted quote (g.char :: joined) .none .inside rest

end Lockstep.Yaml
