import Lockstep.Json
import Lockstep.Json.Token

/-!
# Writing JSON

Two layouts of one token sequence: `Json.compact` writes the tokens and nothing between them, and
`Json.pretty` puts every item and member on a line of its own, two blanks deeper than its container,
with a blank after each colon. Empty containers stay on one line.
-/

set_option autoImplicit false

namespace Lockstep.Json

mutual

/-- The tokens of a value. -/
def tokens : Json → List Token
  | null => [.null]
  | bool value => [.bool value]
  | int value => [.ofInt value]
  | str value => [.str value]
  | arr items => .openArr :: itemTokens items ++ [.closeArr]
  | obj members => .openObj :: memberTokens members ++ [.closeObj]

/-- The tokens between the brackets of an array. -/
def itemTokens : List Json → List Token
  | [] => []
  | [item] => item.tokens
  | item :: items => item.tokens ++ .comma :: itemTokens items

/-- The tokens between the braces of an object. -/
def memberTokens : List (String × Json) → List Token
  | [] => []
  | [(key, value)] => .str key :: .colon :: value.tokens
  | (key, value) :: members => .str key :: .colon :: value.tokens ++ .comma :: memberTokens members

end

/-- The text of a value without blanks. -/
def compact (value : Json) : String := String.ofList (value.tokens.flatMap Token.chars)

/-- The start of a line at a depth of indentation. -/
def newline (depth : Nat) : List Char := '\n' :: List.replicate (2 * depth) ' '

mutual

/-- The characters of a value laid out over lines, inside containers of the given depth. -/
def prettyChars (depth : Nat) : Json → List Char
  | null => Token.null.chars
  | bool value => (Token.bool value).chars
  | int value => (Token.ofInt value).chars
  | str value => (Token.str value).chars
  | arr [] => Token.openArr.chars ++ Token.closeArr.chars
  | arr items =>
    Token.openArr.chars ++ prettyItems (depth + 1) items ++ newline depth ++ Token.closeArr.chars
  | obj [] => Token.openObj.chars ++ Token.closeObj.chars
  | obj members =>
    Token.openObj.chars ++ prettyMembers (depth + 1) members ++ newline depth ++
      Token.closeObj.chars

/-- The lines between the brackets of an array. -/
def prettyItems (depth : Nat) : List Json → List Char
  | [] => []
  | [item] => newline depth ++ prettyChars depth item
  | item :: items =>
    newline depth ++ prettyChars depth item ++ Token.comma.chars ++ prettyItems depth items

/-- The lines between the braces of an object. -/
def prettyMembers (depth : Nat) : List (String × Json) → List Char
  | [] => []
  | [(key, value)] =>
    newline depth ++ (Token.str key).chars ++ Token.colon.chars ++ ' ' :: prettyChars depth value
  | (key, value) :: members =>
    newline depth ++ (Token.str key).chars ++ Token.colon.chars ++ ' ' :: prettyChars depth value ++
      Token.comma.chars ++ prettyMembers depth members

end

/-- The text of a value laid out over lines. -/
def pretty (value : Json) : String := String.ofList (prettyChars 0 value)

end Lockstep.Json
