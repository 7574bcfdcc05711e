import Lockstep.Datum
import Lockstep.Duration

/-!
# Reading records and choices off data

How the types of this library lie in data:

* a record is a map that has its fields as entries, in any order and perhaps among others, each at
  most once; or a sequence of its fields in their order, of which the last ones may be missing if
  they have defaults. Nobody looks at the other entries;
* a tagged value is a map with one entry more, the tag; or a sequence that starts with the tag;
* a choice without content is its name, or a map with the name as its one key and `null` as its
  value;
* a number is an integer within the bounds of its type.

A key is the name of a field or choice, or its position among them. A tagged value is taken in as a
whole before its tag is known, so there must be no flaw anywhere in it. What lies inside it is
`Site.inner`: there a tag may also be given by its position, and an empty map may stand for the
`null` of a choice.
-/

set_option autoImplicit false

namespace Lockstep.Datum

/-- Whether a value stands by itself or inside a tagged value. -/
inductive Site where
  | outer
  | inner
deriving DecidableEq

/-! ## Scalars -/

/-- A text. -/
def string? : Datum → Option String
  | text value => some value
  | _ => none

/-- A truth value. -/
def bool? : Datum → Option Bool
  | bool value => some value
  | _ => none

/-- A natural number up to a bound. Zero may have a minus sign. -/
def natUpTo? (bound : Nat) : Datum → Option Nat
  | nat n => if n ≤ bound then some n else none
  | neg 0 => some 0
  | _ => none

/-- An 8-bit word. -/
def uint8? (d : Datum) : Option UInt8 := (d.natUpTo? (UInt8.size - 1)).map UInt8.ofNat

/-- A 32-bit word. -/
def uint32? (d : Datum) : Option UInt32 := (d.natUpTo? (UInt32.size - 1)).map UInt32.ofNat

/-- A count or position, which fits into 64 bits. -/
def count? (d : Datum) : Option Nat := d.natUpTo? (UInt64.size - 1)

/-- A signed 64-bit integer. -/
def int64? : Datum → Option Int64
  | nat n => if (n : Int) ≤ Int64.maxValue.toInt then some (Int64.ofInt n) else none
  | neg n => if Int64.minValue.toInt ≤ -(n : Int) then some (Int64.ofInt (-(n : Int))) else none
  | _ => none

/-- A length of time. -/
def duration? (d : Datum) : Option Duration := d.count?.bind Duration.ofNat?

/-- The items of a sequence, each read in the same way. -/
def list? {α : Type} (read : Datum → Option α) : Datum → Option (List α)
  | seq items => items.mapM read
  | _ => none

/-! ## Records -/

/-- The named fields that were found. -/
abbrev Fields := List (String × Datum)

/-- Whether no name occurs twice. -/
def namesDistinct : Fields → Bool
  | [] => true
  | (name, _) :: fields => fields.all (·.1 != name) && namesDistinct fields

/-- The fields among the entries of a map. A key that is neither a text nor a position is refused,
and a key that names no field is passed over. -/
def knownFields (names : List String) : List (Datum × Datum) → Option Fields
  | [] => some []
  | (text name, value) :: entries =>
    (knownFields names entries).map fun fields =>
      if name ∈ names then (name, value) :: fields else fields
  | (nat position, value) :: entries =>
    (knownFields names entries).map fun fields =>
      match names[position]? with
      | some name => (name, value) :: fields
      | none => fields
  | _ :: _ => none

/-- The fields of a record with the given field names. -/
def fields? (names : List String) : Datum → Option Fields
  | map entries =>
    match knownFields names entries with
    | some fields => if namesDistinct fields then some fields else none
    | none => none
  | seq items => if items.length ≤ names.length then some (names.zip items) else none
  | _ => none

/-- A field that must be there. -/
def Fields.required {α : Type} (fields : Fields) (name : String) (read : Datum → Option α) :
    Option α :=
  match fields.lookup name with
  | some value => read value
  | none => none

/-- A field that has a default. -/
def Fields.optional {α : Type} (fields : Fields) (name : String) (default : α)
    (read : Datum → Option α) : Option α :=
  match fields.lookup name with
  | some value => read value
  | none => some default

/-! ## Choices -/

/-- The name that a key gives, by itself or by its position. -/
def keyName? (names : List String) : Datum → Option String
  | text name => if name ∈ names then some name else none
  | nat position => names[position]?
  | _ => none

/-- The tag of a tagged value: its name or, inside another tagged value, its position. -/
def tagName? (site : Site) (tags : List String) : Datum → Option String
  | text name => if name ∈ tags then some name else none
  | nat position => if site = .inner then tags[position]? else none
  | _ => none

/-- Whether an entry has a name as its key. -/
def hasKey (name : String) : Datum × Datum → Bool
  | (text key, _) => key == name
  | _ => false

/-- A tagged value taken apart: its tag, and its content as a record. -/
def untag? (site : Site) (key : String) (tags : List String) : Datum → Option (String × Datum)
  | map entries =>
    match entries.filter (hasKey key) with
    | [(_, tag)] => (tagName? site tags tag).map (·, map (entries.filter (!hasKey key ·)))
    | _ => none
  | seq (tag :: items) => (tagName? site tags tag).map (·, seq items)
  | _ => none

/-- A tagged value taken apart, if there is no flaw in it. One inside another was looked through
with the outer one. -/
def tagged? (site : Site) (key : String) (tags : List String) (d : Datum) :
    Option (String × Datum) :=
  if site = .inner ∨ d.isSound then d.untag? site key tags else none

/-- Whether the content of a tagged value without fields is acceptable. -/
def isBare : Datum → Bool
  | seq items => items.isEmpty
  | _ => true

/-- One of a list of named choices without content. -/
def choice? {α : Type} (site : Site) (choices : List (String × α)) : Datum → Option α
  | text name => choices.lookup name
  | map [(key, null)] => (keyName? (choices.map (·.1)) key).bind fun name => choices.lookup name
  | map [(key, map [])] =>
    if site = .inner then
      (keyName? (choices.map (·.1)) key).bind fun name => choices.lookup name
    else none
  | _ => none

/-- A choice with content: the one key of a map, and its value. -/
def variant? (names : List String) : Datum → Option (String × Datum)
  | map [(key, content)] => (keyName? names key).map (·, content)
  | _ => none

end Lockstep.Datum
