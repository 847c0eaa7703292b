import RefCache.SizedMap

/-! # Measuring text values

The ways in which the size of a text value is found, and maps that measure every value that is put in. A
way to measure may count how often it was used before, so the size of a value is the one found when it
was put in. -/

namespace RefCache

/-- A way to find the size of a text. -/
inductive Measure where
  /-- Its bytes in UTF-8. -/
  | bytes
  /-- Its characters. -/
  | characters
  /-- Nothing. -/
  | zero
  /-- The number it spells, or nothing when it spells none below `2 ^ 64`. -/
  | number
  /-- How many texts have been measured, this one included. -/
  | calls
deriving DecidableEq, Repr, Inhabited

namespace Measure

/-- The number that decimal digits spell, with at most one plus sign before them. -/
def spelled? (s : String) : Option Nat :=
  let digits := match s.toList with
    | '+' :: rest => rest
    | all => all
  -- a sign by itself spells no number
  if digits.isEmpty || !digits.all Char.isDigit then none
  else
    let n := digits.foldl (fun n c => 10 * n + (c.toNat - '0'.toNat)) 0
    if n < UInt64.size then some n else none

/-- The size of a text after so many texts have been measured. -/
def size (m : Measure) (earlier : Nat) (s : String) : Nat :=
  match m with
  | bytes => s.utf8ByteSize
  | characters => s.length
  | zero => 0
  | number => (spelled? s).getD 0
  | calls => earlier + 1

end Measure

/-- A sized map of texts together with its way to measure them. -/
structure MeasuredMap where
  measure : Measure
  /-- How many values have been measured. -/
  measured : Nat := 0
  map : SizedMap String String := .empty

/-- Measures a value and puts it in; the first part is the value that was under the key before. -/
def MeasuredMap.put (m : MeasuredMap) (k v : String) : Option String × MeasuredMap :=
  (m.map.get? k,
    { m with
      measured := m.measured + 1
      map := m.map.put k v (m.measure.size m.measured v) })

end RefCache
