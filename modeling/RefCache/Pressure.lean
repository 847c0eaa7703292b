import RefCache.Binary
import RefCache.Text

/-! # Memory pressure

The levels of pressure under which a cache is told to give memory back, and how much of it: a trim ratio
between nothing (0) and everything (1), from a strategy that may be set by hand. -/

namespace RefCache

/-- A level of memory pressure. -/
inductive Pressure where
  | closeToHeapLimit
  | lowInForeground
  | criticallyLowInForeground
  | lowInBackground
  | backgrounded
deriving DecidableEq, Repr, Inhabited

namespace Pressure

/-- All levels. -/
def all : List Pressure :=
  [closeToHeapLimit, lowInForeground, criticallyLowInForeground, lowInBackground, backgrounded]

/-- The name a host gives the level. -/
def name : Pressure → String
  | closeToHeapLimit => "OnCloseToHeapLimit"
  | lowInForeground => "OnSystemLowMemoryWhileAppInForeground"
  | criticallyLowInForeground => "OnSystemMemoryCriticallyLowWhileAppInForeground"
  | lowInBackground => "OnSystemLowMemoryWhileAppInBackground"
  | backgrounded => "OnAppBackgrounded"

/-- The level of a name. -/
def ofName? (name : String) : Option Pressure :=
  all.find? (·.name = name)

/-- The suggested ratio: half in the foreground, everything in the background. -/
def suggestedRatio : Pressure → Float
  | closeToHeapLimit | lowInForeground | criticallyLowInForeground => 0.5
  | lowInBackground | backgrounded => 1.0

end Pressure

/-- How a trim ratio is chosen. -/
inductive TrimStrategy where
  /-- The suggested ratio of each level. -/
  | suggested
  /-- A ratio set by hand, for some levels or for all that have none of their own. -/
  | custom (perLevel : List (Pressure × Float)) (ratio : Float)
deriving Inhabited

namespace TrimStrategy

/-- The ratio for a level. -/
def ratio : TrimStrategy → Pressure → Float
  | suggested, p => p.suggestedRatio
  | custom perLevel ratio, p => (perLevel.lookup p).getD ratio

/-- Sets the ratio of the levels that have none of their own. -/
def setRatio (r : Float) : TrimStrategy → TrimStrategy
  | suggested => suggested
  | custom perLevel _ => custom perLevel r

end TrimStrategy

namespace Ratio

/-- The nearest ratio between nothing and everything; what is not a number asks for nothing. -/
def clamp (r : Float) : Float :=
  -- a negative zero passes both comparisons and stays what it is
  if r.isNaN then 0.0 else if r < 0.0 then 0.0 else if r > 1.0 then 1.0 else r

/-- What `1 - r` leaves of so many bytes, rounded toward zero. -/
def remaining (r : Float) (bytes : Nat) : Nat :=
  (Float.ofNat bytes * (1.0 - r)).toUInt64.toNat

/-- The shortest decimal that reads back as the ratio. -/
def text (r : Float) : String :=
  let sign := if r.toBits.toNat ≥ twoTo 63 then "-" else ""
  let (digits, places) := (Binary.ofFloat r).shortest
  sign ++ Text.decimal (digits / tenTo places) (digits % tenTo places) places

end Ratio

end RefCache
