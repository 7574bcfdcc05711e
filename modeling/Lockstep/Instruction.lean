import Lockstep.Comparison
import Lockstep.Duration
import Lockstep.Identifier
import Lockstep.Label

/-!
# Lane instructions

A lane runs a list of instructions: hardware pulses, the jumps that control flow is made of, and the
points at which lanes meet. A `barrier` is a meeting that is still to be arranged; `sync` and `wait`
are what the hardware can do.
-/

set_option autoImplicit false

namespace Lockstep

/-- One instruction of a lane. -/
inductive Instruction where
  /-- A hardware action of known duration. -/
  | pulse (name : String) (duration : Duration)
  /-- Let time pass. -/
  | delay (duration : Duration)
  /-- Assign to a runtime variable; the value is kept as program text. -/
  | store (dest source : String)
  /-- A jump target. -/
  | label (name : Label)
  /-- Jump. -/
  | goto (target : Label)
  /-- Jump if the test holds. -/
  | gotoIf (test : Comparison) (target : Label)
  /-- Remember the next position and jump. -/
  | call (target : Label)
  /-- Go to the position remembered last. -/
  | ret
  /-- Open a counted loop. -/
  | loadRepeat (count : UInt32)
  /-- Close a counted loop whose body starts at the target. -/
  | repeatFrom (target : Label)
  /-- A meeting of lanes that is still to be arranged. -/
  | barrier (id : BarrierId) (lanes : List LaneId)
  /-- Announce that this lane is ready. -/
  | sync
  /-- Block until all lanes are ready. -/
  | wait
  /-- Evaluate a test for a later jump. -/
  | compare (test : Comparison)
  /-- Load a measurement result for a later test. -/
  | loadCompare
deriving DecidableEq

namespace Instruction

/-- The short name of an instruction; a pulse goes by its own. -/
def name : Instruction → String
  | pulse name _ => name
  | delay _ => "delay"
  | store _ _ => "store"
  | label _ => "label"
  | goto _ => "goto"
  | gotoIf _ _ => "goto_if"
  | call _ => "call"
  | ret => "return"
  | loadRepeat _ => "load_repeat"
  | repeatFrom _ => "repeat"
  | barrier _ _ => "barrier"
  | sync => "sync"
  | wait => "wait"
  | compare _ => "compare"
  | loadCompare => "load_cmp"

/-- The time an instruction takes by itself. -/
def duration : Instruction → Duration
  | pulse _ duration => duration
  | delay duration => duration
  | _ => .zero

/-- The label an instruction jumps to. -/
def target : Instruction → Option Label
  | goto target => some target
  | gotoIf _ target => some target
  | call target => some target
  | repeatFrom target => some target
  | _ => none

/-- The label an instruction defines. -/
def definedLabel : Instruction → Option Label
  | label name => some name
  | _ => none

/-- Whether an instruction defines the given label. -/
def defines (target : Label) (i : Instruction) : Bool := i.definedLabel == some target

/-- Whether an instruction is a meeting still to be arranged. -/
def isBarrier : Instruction → Bool
  | barrier _ _ => true
  | _ => false

/-- The written form of an instruction. -/
def text : Instruction → String
  | pulse name duration => name ++ "(" ++ toString duration.ticks ++ ")"
  | delay duration => "Id(" ++ toString duration.ticks ++ ")"
  | store dest source => "Store(" ++ dest ++ ", " ++ source ++ ")"
  | label name => name.name ++ ":"
  | goto target => "Goto(" ++ target.name ++ ")"
  | gotoIf test target => "Goto(" ++ target.name ++ ") if " ++ test.text
  | call target => "Call(" ++ target.name ++ ")"
  | ret => "Return()"
  | loadRepeat count => "LoadRepeat(" ++ toString count.toNat ++ ")"
  | repeatFrom target => "Repeat(" ++ target.name ++ ")"
  | barrier id lanes => "Barrier(" ++ ", ".intercalate (id.text :: lanes.map LaneId.text) ++ ")"
  | sync => "Sync()"
  | wait => "Wait()"
  | compare test => "Cmp(" ++ test.text ++ ")"
  | loadCompare => "LoadCmp()"

end Instruction

/-- The labels that code defines, in order. -/
def labelsOf (code : List Instruction) : List Label := code.filterMap Instruction.definedLabel

/-- The labels that code jumps to, in order. -/
def targetsOf (code : List Instruction) : List Label := code.filterMap Instruction.target

end Lockstep
