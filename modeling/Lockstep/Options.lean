import Lockstep.Datum.Fields
import Lockstep.Json

/-!
# Options

What a compilation can be told. Every option has a default, so that a partial record of options is
complete.
-/

set_option autoImplicit false

namespace Lockstep

/-- How a program is compiled. -/
structure Options where
  /-- At level 0 all lanes meet at run time at every barrier; above it they are aligned. -/
  level : UInt8 := 1
  /-- Whether the first point of all is the trigger that starts the lanes. -/
  initialWait : Bool := true
  /-- Whether the result is verified. -/
  verify : Bool := true
deriving DecidableEq

namespace Options

/-- The highest level that makes a difference. -/
def topLevel : UInt8 := 1

/-- Set the level; levels above the highest one count as that. -/
def withLevel (o : Options) (level : UInt8) : Options :=
  { o with level := if level ≤ topLevel then level else topLevel }

def toJson (o : Options) : Json :=
  .obj [("optimization_level", .ofNat o.level.toNat), ("initial_wait", .bool o.initialWait),
    ("verify", .bool o.verify)]

/-- The level is taken as it stands. -/
def ofDatum? (d : Datum) : Option Options := do
  let fields ← d.fields? ["optimization_level", "initial_wait", "verify"]
  let defaults : Options := {}
  let level ← fields.optional "optimization_level" defaults.level Datum.uint8?
  let initialWait ← fields.optional "initial_wait" defaults.initialWait Datum.bool?
  let verify ← fields.optional "verify" defaults.verify Datum.bool?
  return { level, initialWait, verify }

end Options

end Lockstep
