/-!
# Durations

Time is counted in device ticks and saturates: a duration never exceeds `Duration.maxTicks`, and a
sum or a product beyond it is the bound itself. The bound is carried by the type, so every law of
durations is a law about `min` on natural numbers.
-/

set_option autoImplicit false

namespace Lockstep

/-- The ticks of the longest duration. -/
def Duration.maxTicks : Nat := UInt64.size - 1

/-- A length of time in device ticks. -/
structure Duration where
  /-- The number of ticks. -/
  ticks : Nat
  /-- Durations are bounded. -/
  ticks_le : ticks ≤ Duration.maxTicks
deriving DecidableEq

namespace Duration

/-- The nearest duration to a number of ticks: the number itself, or the bound beyond it. -/
def clamp (ticks : Nat) : Duration := ⟨min ticks maxTicks, Nat.min_le_right _ _⟩

/-- A number of ticks as a duration, if it is within the bound. -/
def ofNat? (ticks : Nat) : Option Duration :=
  if h : ticks ≤ maxTicks then some ⟨ticks, h⟩ else none

/-- No time at all. -/
def zero : Duration := ⟨0, Nat.zero_le _⟩

instance : Inhabited Duration := ⟨zero⟩

/-- Durations add up to the bound. -/
def add (a b : Duration) : Duration := clamp (a.ticks + b.ticks)

instance : Add Duration := ⟨add⟩

/-- A duration repeated `n` times, up to the bound. -/
def scale (d : Duration) (n : Nat) : Duration := clamp (d.ticks * n)

/-- The time from `b` to `a`, nothing if `b` is the later one. -/
def sub (a b : Duration) : Duration :=
  ⟨a.ticks - b.ticks, Nat.le_trans (Nat.sub_le _ _) a.ticks_le⟩

instance : Sub Duration := ⟨sub⟩

/-- The longer of two durations. -/
def longer (a b : Duration) : Duration := if a.ticks ≤ b.ticks then b else a

/-- The longest of a list of durations, nothing for an empty list. -/
def longest (ds : List Duration) : Duration := ds.foldr longer zero

@[ext]
theorem ext {a b : Duration} (h : a.ticks = b.ticks) : a = b := by
  cases a
  cases b
  simp_all

@[simp]
theorem ticks_clamp (n : Nat) : (clamp n).ticks = min n maxTicks := rfl

@[simp]
theorem ticks_zero : zero.ticks = 0 := rfl

@[simp]
theorem ticks_add (a b : Duration) : (a + b).ticks = min (a.ticks + b.ticks) maxTicks := rfl

@[simp]
theorem ticks_sub (a b : Duration) : (a - b).ticks = a.ticks - b.ticks := rfl

@[simp]
theorem ticks_scale (d : Duration) (n : Nat) : (d.scale n).ticks = min (d.ticks * n) maxTicks := rfl

@[simp]
theorem ticks_longer (a b : Duration) : (longer a b).ticks = max a.ticks b.ticks := by
  unfold longer
  split <;> omega

theorem le_ticks_add (a b : Duration) : a.ticks ≤ (a + b).ticks := by
  have ha := a.ticks_le
  rw [ticks_add]
  omega

theorem add_zero (a : Duration) : a + zero = a := by
  have ha := a.ticks_le
  ext
  rw [ticks_add, ticks_zero]
  omega

end Duration

/-! ## Clocks -/

/-- What it takes to count time: times of a type can be added, subtracted and multiplied, and adding
never leads back in time. -/
class Clock (τ : Type) extends Add τ, Sub τ where
  /-- No time at all. -/
  zero : τ
  /-- A time that passes a number of times. -/
  scale : τ → Nat → τ
  /-- The time that a duration takes. -/
  ofDuration : Duration → τ
  /-- The number of ticks of a time. -/
  ticks : τ → Nat
  le_ticks_add : ∀ s t : τ, ticks s ≤ ticks (s + t)
  add_ofDuration_zero : ∀ t : τ, t + ofDuration .zero = t

/-- The clock of a device stands still at the longest duration. -/
instance : Clock Duration where
  zero := .zero
  scale := .scale
  ofDuration d := d
  ticks := Duration.ticks
  le_ticks_add := Duration.le_ticks_add
  add_ofDuration_zero := Duration.add_zero

namespace Duration

@[simp]
theorem clock_zero : (Clock.zero : Duration) = zero := rfl

@[simp]
theorem clock_scale (d : Duration) (n : Nat) : Clock.scale d n = d.scale n := rfl

@[simp]
theorem clock_ofDuration (d : Duration) : (Clock.ofDuration d : Duration) = d := rfl

end Duration

end Lockstep
