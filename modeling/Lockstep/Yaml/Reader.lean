import Lockstep.Yaml
import Lockstep.Yaml.Token

/-!
# Reading YAML

The tree of a text, by descent through its tokens. A key or value without anything written in it is
absent. All functions take a bound on their steps, which `Yaml.parse?` derives from the number of
tokens: of two steps that follow one another at least one takes a token.
-/

set_option autoImplicit false

namespace Lockstep.Yaml

/-- Where a value stands. -/
inductive Place where
  /-- Inside flow brackets. -/
  | flow
  /-- In block style. -/
  | block
  /-- In an entry of a block mapping, where the items of a sequence may stand in the column of the
  key. -/
  | entry
deriving DecidableEq

/-- A value, unless one of the given tokens follows. -/
def orAbsent (ends : List Token) (read : List Token → Option (Yaml × List Token))
    (tokens : List Token) : Option (Yaml × List Token) :=
  if tokens.head?.any ends.contains then some (absent, tokens) else read tokens

/-- The value of a key, which is absent if its mark does not follow. -/
def valueAfter (ends : List Token) (read : List Token → Option (Yaml × List Token)) :
    List Token → Option (Yaml × List Token)
  | .value :: rest => orAbsent ends read rest
  | tokens => some (absent, tokens)

/-- Pass over the mark before an item of a flow collection; the first item has none. -/
def afterMark (isFirst : Bool) (close : Token) : List Token → Option (List Token)
  | [] => none
  | t :: rest =>
    if isFirst ∨ t = close then some (t :: rest)
    else if t = .flowEntry then some rest
    else none

/-- The key of a single pair in a flow sequence. Where it is absent, the token after it is passed
over. -/
def pairKey (read : List Token → Option (Yaml × List Token)) :
    List Token → Option (Yaml × List Token)
  | .value :: rest | .flowEntry :: rest | .flowSeqEnd :: rest => some (absent, rest)
  | tokens => read tokens

mutual

/-- The value that starts with a token. -/
def node : (steps : Nat) → Place → List Token → Option (Yaml × List Token)
  | 0, _, _ => none
  | _, _, [] => none
  | steps + 1, place, t :: rest =>
    match t with
    | .plain text => some (.plain text, rest)
    | .quoted text => some (.quoted text, rest)
    | .flowSeqStart => flowItems steps [] rest
    | .flowMapStart => flowEntries steps [] rest
    | .blockSeqStart => if place = .flow then none else blockItems steps [] rest
    | .blockMapStart => if place = .flow then none else blockEntries steps [] rest
    | .blockEntry => if place = .entry then looseItems steps [] (t :: rest) else none
    | _ => none

/-- The items of a flow sequence up to its end. -/
def flowItems : (steps : Nat) → List Yaml → List Token → Option (Yaml × List Token)
  | 0, _, _ => none
  | steps + 1, done, tokens =>
    match afterMark done.isEmpty .flowSeqEnd tokens with
    | none => none
    | some (.flowSeqEnd :: rest) => some (.seq done.reverse, rest)
    | some (.key :: rest) => do
      let (key, rest) ← pairKey (node steps .flow) rest
      let (value, rest) ← valueAfter [.flowEntry, .flowSeqEnd] (node steps .flow) rest
      flowItems steps (.map [(key, value)] :: done) rest
    | some tokens => do
      let (item, rest) ← node steps .flow tokens
      flowItems steps (item :: done) rest

/-- The entries of a flow mapping up to its end. -/
def flowEntries : (steps : Nat) → List (Yaml × Yaml) → List Token → Option (Yaml × List Token)
  | 0, _, _ => none
  | steps + 1, done, tokens =>
    match afterMark done.isEmpty .flowMapEnd tokens with
    | none => none
    | some (.flowMapEnd :: rest) => some (.map done.reverse, rest)
    | some (.key :: rest) => do
      let (key, rest) ← orAbsent [.value, .flowEntry, .flowMapEnd] (node steps .flow) rest
      let (value, rest) ← valueAfter [.flowEntry, .flowMapEnd] (node steps .flow) rest
      flowEntries steps ((key, value) :: done) rest
    | some tokens => do
      let (key, rest) ← node steps .flow tokens
      flowEntries steps ((key, absent) :: done) rest

/-- The items of a block sequence up to its end. -/
def blockItems : (steps : Nat) → List Yaml → List Token → Option (Yaml × List Token)
  | 0, _, _ => none
  | _, done, .blockEnd :: rest => some (.seq done.reverse, rest)
  | steps + 1, done, .blockEntry :: rest => do
    let (item, rest) ← orAbsent [.blockEntry, .blockEnd] (node steps .block) rest
    blockItems steps (item :: done) rest
  | _, _, _ => none

/-- The items of a sequence in the column of its key. It ends where no item follows. -/
def looseItems : (steps : Nat) → List Yaml → List Token → Option (Yaml × List Token)
  | 0, _, _ => none
  | steps + 1, done, .blockEntry :: rest => do
    let (item, rest) ←
      orAbsent [.blockEntry, .key, .value, .blockEnd] (node steps .block) rest
    looseItems steps (item :: done) rest
  | _, done, tokens => some (.seq done.reverse, tokens)

/-- The entries of a block mapping up to its end. -/
def blockEntries : (steps : Nat) → List (Yaml × Yaml) → List Token → Option (Yaml × List Token)
  | 0, _, _ => none
  | _, done, .blockEnd :: rest => some (.map done.reverse, rest)
  | steps + 1, done, .key :: rest => do
    let ends := [.key, .value, .blockEnd]
    let (key, rest) ← orAbsent ends (node steps .entry) rest
    let (value, rest) ← valueAfter ends (node steps .entry) rest
    blockEntries steps ((key, value) :: done) rest
  | _, _, _ => none

end

/-- The value at the start of a document. -/
def content? (tokens : List Token) : Option (Yaml × List Token) :=
  let read := node (2 * tokens.length + 2) .block
  match tokens with
  | [] => some (absent, [])
  | .documentStart :: [] => some (absent, [])
  | .documentStart :: rest => orAbsent [.documentStart, .documentEnd] read rest
  | _ => read tokens

/-- The value of a text, which holds one document. -/
def parse? (text : String) : Option Yaml := do
  let (value, rest) ← content? (← tokens? text)
  if rest.all (· = .documentEnd) then some value else none

end Lockstep.Yaml
