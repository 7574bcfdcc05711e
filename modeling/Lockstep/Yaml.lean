/-!
# YAML values

The part of YAML that configurations and programs are written in: block and flow mappings and
sequences, and plain and quoted scalars. A plain scalar keeps its text, because what it stands for
depends on what is expected in its place.
-/

set_option autoImplicit false

namespace Lockstep

/-- A YAML value. -/
inductive Yaml where
  /-- A scalar without quotes; the empty one stands where nothing is written. -/
  | plain (text : String)
  /-- A scalar in quotes. -/
  | quoted (text : String)
  | seq (items : List Yaml)
  | map (entries : List (Yaml × Yaml))

/-- What stands where nothing is written. -/
def Yaml.absent : Yaml := .plain ""

end Lockstep
