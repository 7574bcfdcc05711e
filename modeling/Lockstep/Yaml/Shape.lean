import Lockstep.Yaml
import Lockstep.Yaml.Plain

/-!
# YAML values as data

A YAML value is read in the light of what is expected in its place, its `Shape`. A scalar in quotes
is a text everywhere. A plain scalar is a text where one is expected, and what its spelling says
where nothing in particular is expected. A record is a mapping with names as keys; nobody looks at
the other entries. Where a record or a list is expected and nothing is written, it is the empty one.
What does not have its shape is a flaw.
-/

set_option autoImplicit false

namespace Lockstep

/-- What is expected in a place. -/
inductive Yaml.Shape where
  /-- Nothing at all: nobody looks there. -/
  | skipped
  /-- Nothing in particular. -/
  | any
  /-- A text. -/
  | text
  /-- A natural number. -/
  | natural
  /-- A truth value. -/
  | truth
  /-- A list of values of one shape. -/
  | list (item : Yaml.Shape)
  /-- A record with the given fields. -/
  | record (fields : List (String × Yaml.Shape))

namespace Yaml

/-- How many containers may stand inside one another where somebody looks. -/
def nestingLimit : Nat := 128

/-- The shape of an item of a sequence. -/
def Shape.item : Shape → Shape
  | .list item => item
  | _ => .any

/-- The shape of a key of a mapping. -/
def Shape.key : Shape → Shape
  | .record _ => .text
  | _ => .any

/-- The shape of the value under a key of a mapping. -/
def Shape.entry (key : Yaml) : Shape → Shape
  | .record fields =>
    match key with
    | .plain name | .quoted name => (fields.lookup name).getD .skipped
    | _ => .skipped
  | _ => .any

/-- What a plain scalar stands for where a shape is expected. -/
def plainAs (text : String) : Shape → Datum
  | .skipped => .null
  | .any => resolve text
  | .text => .text text
  | .natural => ((natural? text).map Datum.nat).getD .flaw
  | .truth => ((truth? text).map Datum.bool).getD .flaw
  | .list _ => if text = "" then .seq [] else .flaw
  | .record _ => if text = "" then .map [] else .flaw

/-- What a scalar in quotes stands for where a shape is expected. -/
def quotedAs (text : String) : Shape → Datum
  | .skipped => .null
  | .any | .text => .text text
  | _ => .flaw

/-- A sequence or mapping with the given content inside `level` containers, if one fits the shape
and is not nested too deep. -/
def containerAs (level : Nat) (fits : Bool) (content : Datum) : Shape → Datum
  | .skipped => .null
  | _ => if fits ∧ level < nestingLimit then content else .flaw

/-- Whether a sequence may stand where a shape is expected. -/
def Shape.isSequence : Shape → Bool
  | .any | .list _ => true
  | _ => false

/-- Whether a mapping may stand where a shape is expected. -/
def Shape.isMapping : Shape → Bool
  | .any | .record _ => true
  | _ => false

mutual

/-- What a value stands for where a shape is expected, inside `level` containers. -/
def toDatum (level : Nat) (shape : Shape) : Yaml → Datum
  | .plain text => plainAs text shape
  | .quoted text => quotedAs text shape
  | .seq items =>
    containerAs level shape.isSequence (.seq (itemsToData (level + 1) shape.item items)) shape
  | .map entries =>
    containerAs level shape.isMapping (.map (entriesToData (level + 1) shape entries)) shape

/-- What the items of a sequence stand for. -/
def itemsToData (level : Nat) (shape : Shape) : List Yaml → List Datum
  | [] => []
  | item :: items => toDatum level shape item :: itemsToData level shape items

/-- What the entries of a mapping of the given shape stand for. -/
def entriesToData (level : Nat) (shape : Shape) : List (Yaml × Yaml) → List (Datum × Datum)
  | [] => []
  | (key, value) :: entries =>
    (toDatum level shape.key key, toDatum level (shape.entry key) value) ::
      entriesToData level shape entries

end

/-- What a value stands for where a shape is expected. -/
def asShape (shape : Shape) (value : Yaml) : Datum := toDatum 0 shape value

end Yaml

end Lockstep
