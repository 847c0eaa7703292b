/-! # Binary fractions and their shortest decimals

A finite `Float` is a whole number over a power of two. `Binary.shortest` finds the decimal with the fewest
places after the point that still reads back as the same `Float`, in exact arithmetic on natural numbers:
a decimal reads back when it lies among the reals that round to the `Float`, and with any number of places
the only candidates are the decimals just below and just above the value.

Only values of magnitude at most one are needed here, so the point is never far from the digits and no
exponent is written. -/

namespace RefCache

/-- `2 ^ n`. -/
def twoTo (n : Nat) : Nat := Nat.pow 2 n

/-- `10 ^ n`. -/
def tenTo (n : Nat) : Nat := Nat.pow 10 n

/-- The value `mantissa / 2 ^ scale` of a `Float` of magnitude at most one. The mantissa is even or odd as
the last bit of the `Float` is. -/
structure Binary where
  mantissa : Nat
  scale : Nat
deriving DecidableEq, Repr

namespace Binary

/-- The magnitude of a finite `Float`. -/
def ofFloat (x : Float) : Binary :=
  let bits := x.toBits.toNat
  let fraction := bits % twoTo 52
  let exponent := bits / twoTo 52 % twoTo 11
  -- without an exponent the number is subnormal and its leading bit is not implied
  if exponent = 0 then ⟨fraction, 1074⟩ else ⟨fraction + twoTo 52, 1075 - exponent⟩

/-- The decimal `digits / 10 ^ places` rounds to this value. The reals that do reach half a unit of the
last bit to either side, a quarter below a power of two (the smallest one apart); the ends belong to them
when the mantissa is even. -/
def readsBack (b : Binary) (digits places : Nat) : Bool :=
  let below := if b.mantissa = twoTo 52 ∧ b.scale ≠ 1074 then 1 else 2
  -- counted in quarters of a unit of the last bit, so that both ends are whole
  let low := (4 * b.mantissa - below) * tenTo places
  let high := (4 * b.mantissa + 2) * tenTo places
  let decimal := 4 * digits * twoTo b.scale
  if b.mantissa % 2 = 0 then low ≤ decimal && decimal ≤ high else low < decimal && decimal < high

/-- Of the two decimals with so many places next to the value, the nearer one that reads back; when both
are equally near, the upper one comes first. -/
def candidate? (b : Binary) (places : Nat) : Option Nat :=
  let scaled := b.mantissa * tenTo places
  let down := scaled / twoTo b.scale
  let downNearer := 2 * (scaled % twoTo b.scale) < twoTo b.scale
  let first := if downNearer then down else down + 1
  let second := if downNearer then down + 1 else down
  if b.readsBack first places then some first
  else if b.readsBack second places then some second
  else none

/-- Looks for a decimal that reads back with at most `fuel` places more than `places`. -/
def searchFrom (b : Binary) (places : Nat) : Nat → Nat × Nat
  | 0 => (b.mantissa * (tenTo b.scale / twoTo b.scale), b.scale)
  | fuel + 1 =>
    match b.candidate? places with
    | some digits => (digits, places)
    | none => b.searchFrom (places + 1) fuel

/-- The digits and the number of places of the shortest decimal that reads back. With as many places as
the scale the decimal is exact, so the search ends there at the latest. -/
def shortest (b : Binary) : Nat × Nat :=
  b.searchFrom 0 b.scale

end Binary

end RefCache
