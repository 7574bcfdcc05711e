import Lockstep.Datum
import Lockstep.Json.Token

/-!
# Reading JSON

A push-down machine that takes one token at a time. Its state says what may come next and holds the
containers that are still open. Reading is strict: one value, and nothing but blanks around its
tokens. A container that stands inside more others than allowed is read to its end and is a flaw, as
are strings with a lone surrogate and numbers out of range.
-/

set_option autoImplicit false

namespace Lockstep.Json

/-- A container that is open around the value being read; what it holds so far is in reverse. -/
inductive Frame where
  | arr (items : List Datum)
  | obj (members : List (Datum × Datum)) (key : Datum)

/-- What has been read, and what may come next. -/
inductive Reading where
  /-- A value must follow. -/
  | wantValue (stack : List Frame)
  /-- An array was just opened: its first item or its end must follow. -/
  | wantItemOrEnd (stack : List Frame)
  /-- An object was just opened: its first key or its end must follow. -/
  | wantKeyOrEnd (stack : List Frame)
  /-- A further key must follow. -/
  | wantKey (members : List (Datum × Datum)) (stack : List Frame)
  /-- A colon must follow the key. -/
  | wantColon (members : List (Datum × Datum)) (key : Datum) (stack : List Frame)
  /-- A value is complete. -/
  | complete (value : Datum) (stack : List Frame)

/-- The key that a token is. -/
def Token.key? : Token → Option Datum
  | .str name => some (.text name)
  | .broken => some .flaw
  | _ => none

namespace Reading

/-- A container is complete; inside `limit` others or more it is a flaw. -/
def close (limit : Nat) (value : Datum) (stack : List Frame) : Reading :=
  .complete (if stack.length < limit then value else .flaw) stack

/-- Take a token where a value must follow. -/
def stepValue (stack : List Frame) : Token → Option Reading
  | .null => some (.complete .null stack)
  | .bool value => some (.complete (.bool value) stack)
  | .nat value => some (.complete (.nat value) stack)
  | .neg size => some (.complete (.neg size) stack)
  | .real => some (.complete .real stack)
  | .str value => some (.complete (.text value) stack)
  | .unbounded | .broken => some (.complete .flaw stack)
  | .openArr => some (.wantItemOrEnd stack)
  | .openObj => some (.wantKeyOrEnd stack)
  | _ => none

/-- Take one token. -/
def step (limit : Nat) : Reading → Token → Option Reading
  | .wantValue stack, t => stepValue stack t
  | .wantItemOrEnd stack, .closeArr => some (close limit (.seq []) stack)
  | .wantItemOrEnd stack, t => stepValue (.arr [] :: stack) t
  | .wantKeyOrEnd stack, .closeObj => some (close limit (.map []) stack)
  | .wantKeyOrEnd stack, t => t.key?.map fun key => .wantColon [] key stack
  | .wantKey members stack, t => t.key?.map fun key => .wantColon members key stack
  | .wantColon members key stack, .colon => some (.wantValue (.obj members key :: stack))
  | .complete value (.arr items :: stack), .comma =>
    some (.wantValue (.arr (value :: items) :: stack))
  | .complete value (.arr items :: stack), .closeArr =>
    some (close limit (.seq (value :: items).reverse) stack)
  | .complete value (.obj members key :: stack), .comma =>
    some (.wantKey ((key, value) :: members) stack)
  | .complete value (.obj members key :: stack), .closeObj =>
    some (close limit (.map ((key, value) :: members).reverse) stack)
  | _, _ => none

/-- The value that has been read, if it is complete and nothing is open. -/
def result? : Reading → Option Datum
  | .complete value [] => some value
  | _ => none

end Reading

/-- Read on from a state to the end of the text. -/
def readFrom (limit : Nat) (state : Reading) (text : List Char) : Option Datum :=
  match _h : Token.scan text with
  | .finished => state.result?
  | .fault => none
  | .token t rest =>
    match state.step limit t with
    | some state => readFrom limit state rest
    | none => none
termination_by text.length
decreasing_by exact Token.scan_length _h

/-- What a text says; containers inside `limit` others or more are flaws. -/
def parseWithin? (limit : Nat) (text : String) : Option Datum :=
  readFrom limit (.wantValue []) text.toList

/-- How many containers may stand inside one another in a document. -/
def nestingLimit : Nat := 127

/-- What a document says. -/
def parse? (text : String) : Option Datum := parseWithin? nestingLimit text

end Lockstep.Json
