import RefCache.Text

/-! # Durations and clocks

A `Duration` counts nanoseconds. Durations whose whole seconds do not fit in 64 bits cannot be
represented, so adding two durations can fail (`add?`).

A `Clock` is either moved by hand or runs by itself. A clock moved by hand counts nanoseconds in 64 bits
and wraps around; one that runs by itself is a little later at every reading. -/

namespace RefCache

/-- A span of time in nanoseconds. -/
structure Duration where
  nanos : Nat
deriving DecidableEq, Repr, Inhabited

namespace Duration

/-- Nanoseconds in a second. -/
def nanosPerSecond : Nat := 1000000000

/-- The span without length. -/
def zero : Duration := ⟨0⟩

/-- Whole seconds and the nanoseconds beyond them. -/
def ofParts (seconds nanos : Nat) : Duration :=
  ⟨seconds * nanosPerSecond + nanos⟩

/-- The span of `n` seconds. -/
def ofSeconds (n : Nat) : Duration :=
  ofParts n 0

/-- The whole seconds. -/
def seconds (d : Duration) : Nat :=
  d.nanos / nanosPerSecond

/-- The nanoseconds beyond the whole seconds. -/
def subsecond (d : Duration) : Nat :=
  d.nanos % nanosPerSecond

instance : LE Duration := ⟨fun a b => a.nanos ≤ b.nanos⟩

instance (a b : Duration) : Decidable (a ≤ b) :=
  inferInstanceAs (Decidable (a.nanos ≤ b.nanos))

/-- The sum, unless its whole seconds do not fit in 64 bits. -/
def add? (a b : Duration) : Option Duration :=
  let sum := a.nanos + b.nanos
  if sum / nanosPerSecond < UInt64.size then some ⟨sum⟩ else none

/-- The span in the largest of the units s, ms, µs and ns of which it holds at least one. -/
def text (d : Duration) : String :=
  -- the whole part is at least one in the unit chosen, and the zero span is left to nanoseconds
  if d.nanos ≥ 1000000000 then
    Text.decimal (d.nanos / 1000000000) (d.nanos % 1000000000) 9 ++ "s"
  else if d.nanos ≥ 1000000 then
    Text.decimal (d.nanos / 1000000) (d.nanos % 1000000) 6 ++ "ms"
  else if d.nanos ≥ 1000 then
    Text.decimal (d.nanos / 1000) (d.nanos % 1000) 3 ++ "µs"
  else
    Text.number d.nanos ++ "ns"

end Duration

/-- A source of readings. -/
inductive Clock where
  /-- Moved by hand: its nanoseconds in 64 bits. -/
  | manual (nanos : UInt64)
  /-- Runs by itself: the readings taken from it so far. -/
  | running (readings : Nat)
deriving DecidableEq, Repr, Inhabited

namespace Clock

/-- What the clock shows. A clock that runs by itself has moved on by a nanosecond at every reading. -/
def now : Clock → Duration
  | manual nanos => ⟨nanos.toNat⟩
  | running readings => ⟨readings⟩

/-- The clock after a reading has been taken. -/
def afterReading : Clock → Clock
  | manual nanos => manual nanos
  | running readings => running (readings + 1)

/-- Moves the clock by hand. A step too long for 64 bits of nanoseconds counts as the longest one that
fits, and the sum wraps around. A clock that runs by itself takes no notice. -/
def advance (step : Duration) : Clock → Clock
  | manual nanos => manual (nanos + UInt64.ofNat (min step.nanos (UInt64.size - 1)))
  | running readings => running readings

/-- A description of a clock moved by hand by what it shows. -/
def describe (c : Clock) : String :=
  Text.record "ManualClock" [("now", c.now.text)]

end Clock

end RefCache
