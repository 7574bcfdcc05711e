/-!
# YAML characters and their places

A text is taken as a list of characters with their places, so that later stages can ask for a column
without counting. A line ends at a line feed, a carriage return or both, a next line character, a
line separator or a paragraph separator. The first four count as one line feed; the separators stay
what they are. Control characters other than tabs and line ends may not occur.
-/

set_option autoImplicit false

namespace Lockstep.Yaml

/-- A character and its place: the number of bytes before it, its line, and its column. -/
structure Glyph where
  char : Char
  offset : Nat
  line : Nat
  column : Nat
deriving DecidableEq

/-- The next line character. -/
def nextLine : Char := Char.ofNat 0x85

/-- The separators of lines and of paragraphs. -/
def isSeparator (c : Char) : Bool := c.toNat == 0x2028 || c.toNat == 0x2029

/-- Whether a character ends a line. -/
def isBreak (c : Char) : Bool := c == '\n' || c == '\r' || c == nextLine || isSeparator c

/-- Whether a character is a blank. -/
def isBlank (c : Char) : Bool := c == ' ' || c == '\t'

/-- Whether a character separates words. -/
def isGap (c : Char) : Bool := isBlank c || isBreak c

/-- The byte order mark. -/
def byteOrderMark : Char := Char.ofNat 0xfeff

/-- Whether a character may occur in a text. -/
def isAllowed (c : Char) : Bool :=
  c == '\t' || c == '\n' || c == '\r' || c == nextLine ||
    (0x20 ≤ c.toNat && c.toNat ≤ 0x7e) ||
    (0xa0 ≤ c.toNat && c.toNat ≤ 0xfffd) || 0x10000 ≤ c.toNat

/-- The characters of a text with their places, the first one at the given place. -/
def locateFrom (offset line column : Nat) : List Char → List Glyph
  | [] => []
  | '\r' :: '\n' :: rest =>
    ⟨'\n', offset, line, column⟩ :: locateFrom (offset + 2) (line + 1) 0 rest
  | c :: rest =>
    if isBreak c then
      ⟨if isSeparator c then c else '\n', offset, line, column⟩ ::
        locateFrom (offset + c.utf8Size) (line + 1) 0 rest
    else ⟨c, offset, line, column⟩ :: locateFrom (offset + c.utf8Size) line (column + 1) rest

/-- The characters of a text with their places, if all of them may occur. -/
def glyphs? (text : String) : Option (List Glyph) :=
  if text.toList.all isAllowed then some (locateFrom 0 0 0 text.toList) else none

/-- Whether a text goes on with a gap, or not at all. -/
def atGap : List Glyph → Bool
  | [] => true
  | g :: _ => isGap g.char

/-- Whether the mark of a document stands here: three equal marks in the first column. -/
def atDocumentMark (mark : Char) : List Glyph → Bool
  | a :: b :: c :: rest =>
    a.column == 0 && a.char == mark && b.char == mark && c.char == mark && atGap rest
  | _ => false

end Lockstep.Yaml
