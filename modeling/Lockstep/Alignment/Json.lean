import Lockstep.Alignment
import Lockstep.Datum.Fields
import Lockstep.Json

/-!
# Reports in JSON

A report is a record. Its mismatch is `null` if there was none, and may then also be left out of the
map, though not of the sequence.
-/

set_option autoImplicit false

namespace Lockstep.Report

/-- The names of the fields. -/
def fieldNames : List String := ["ranks", "elided", "padded", "synchronized", "mismatch"]

def toJson (r : Report) : Json :=
  .obj [("ranks", .ofNat r.ranks), ("elided", .ofNat r.elided), ("padded", .ofNat r.padded),
    ("synchronized", .ofNat r.synchronized),
    ("mismatch", .ofOption (.ofList .ofNat) r.mismatch)]

/-- The barrier counts of a mismatch. -/
def mismatchOfDatum? : Datum → Option (Option (List Nat))
  | .null => some none
  | d => (d.list? Datum.count?).map some

def ofFields? (fields : Datum.Fields) (mismatch : Option (Option (List Nat))) : Option Report := do
  let ranks ← fields.required "ranks" Datum.count?
  let elided ← fields.required "elided" Datum.count?
  let padded ← fields.required "padded" Datum.count?
  let synchronized ← fields.required "synchronized" Datum.count?
  return { ranks, elided, padded, synchronized, mismatch := ← mismatch }

def ofDatum? (d : Datum) : Option Report := do
  let fields ← d.fields? fieldNames
  match d with
  | .seq _ => ofFields? fields (fields.required "mismatch" mismatchOfDatum?)
  | _ => ofFields? fields (fields.optional "mismatch" none mismatchOfDatum?)

end Lockstep.Report
