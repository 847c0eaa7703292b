import RefCache.Text

/-! # Tuning of the adaptive policy

The four settings of the adaptive policy, and what counts as a legal value of each. `validated` puts the
default in the place of every illegal value, and `faults` lists what was wrong. -/

namespace RefCache

/-- Shares are counted in promil: this is the whole. -/
def wholePromil : Int := 1000

/-- The smallest share a pool can have. -/
def minFraction : Int := 100

/-- The largest share a pool can have. -/
def maxFraction : Int := wholePromil - minFraction

/-- The settings of the adaptive policy. -/
structure Tuning where
  /-- How far one ghost hit moves the share of the less frequently used, in promil. -/
  rate : Int := 10
  /-- Entries used more often than this count as frequently used. -/
  threshold : Int := 1
  /-- How many evicted keys each pool remembers. -/
  ghostCapacity : Int := 0
  /-- The share of the less frequently used at the start, in promil. -/
  fraction : Int := 500
deriving DecidableEq, Repr, Inhabited

namespace Tuning

/-- An illegal setting, with the value it was given. -/
inductive Fault where
  | fraction (given : Int)
  | rate (given : Int)
  | threshold (given : Int)
  | ghostCapacity (given : Int)
deriving DecidableEq, Repr

/-- The share leaves either pool its smallest share. -/
def FractionLegal (f : Int) : Prop := minFraction ≤ f ∧ f ≤ maxFraction

/-- A step is more than nothing and less than the whole. -/
def RateLegal (r : Int) : Prop := 0 < r ∧ r < wholePromil

/-- Frequent use is more than one. -/
def ThresholdLegal (t : Int) : Prop := 1 ≤ t

/-- A list cannot remember fewer than no keys. -/
def GhostCapacityLegal (n : Int) : Prop := 0 ≤ n

instance (f : Int) : Decidable (FractionLegal f) := inferInstanceAs (Decidable (_ ∧ _))

instance (r : Int) : Decidable (RateLegal r) := inferInstanceAs (Decidable (_ ∧ _))

instance (t : Int) : Decidable (ThresholdLegal t) := inferInstanceAs (Decidable (_ ≤ _))

instance (n : Int) : Decidable (GhostCapacityLegal n) := inferInstanceAs (Decidable (_ ≤ _))

/-- The settings with the default in the place of every illegal value. -/
def validated (t : Tuning) : Tuning :=
  let default : Tuning := {}
  { fraction := if FractionLegal t.fraction then t.fraction else default.fraction
    rate := if RateLegal t.rate then t.rate else default.rate
    threshold := if ThresholdLegal t.threshold then t.threshold else default.threshold
    ghostCapacity :=
      if GhostCapacityLegal t.ghostCapacity then t.ghostCapacity else default.ghostCapacity }

/-- The illegal settings. -/
def faults (t : Tuning) : List Fault :=
  (if FractionLegal t.fraction then [] else [.fraction t.fraction])
    ++ (if RateLegal t.rate then [] else [.rate t.rate])
    ++ (if ThresholdLegal t.threshold then [] else [.threshold t.threshold])
    ++ (if GhostCapacityLegal t.ghostCapacity then [] else [.ghostCapacity t.ghostCapacity])

/-- What is wrong with a setting, and what takes its place. -/
def Fault.text : Fault → String
  | .fraction given =>
    "illegal lfu fraction " ++ Text.integer given ++ ", expected [" ++ Text.integer minFraction ++ ", "
      ++ Text.integer maxFraction ++ "]; using " ++ Text.integer ({} : Tuning).fraction
  | .rate given =>
    "illegal adaptive rate " ++ Text.integer given ++ ", expected (0, " ++ Text.integer wholePromil
      ++ "); using " ++ Text.integer ({} : Tuning).rate
  | .threshold given =>
    "illegal frequently used threshold " ++ Text.integer given ++ "; using "
      ++ Text.integer ({} : Tuning).threshold
  | .ghostCapacity given =>
    "illegal ghost list size " ++ Text.integer given ++ "; using "
      ++ Text.integer ({} : Tuning).ghostCapacity

/-- A description with all four settings. -/
def describe (t : Tuning) : String :=
  Text.record "AdaptiveCacheConfig"
    [("adaptive_rate_promil", Text.integer t.rate),
      ("frequently_used_threshold", Text.integer t.threshold),
      ("ghost_list_max_size", Text.integer t.ghostCapacity),
      ("lfu_fraction_promil", Text.integer t.fraction)]

private theorem legal_or_default {p : Int → Prop} [DecidablePred p] (given default : Int)
    (h : p default) : p (if p given then given else default) := by
  split
  · assumption
  · exact h

theorem validated_legal (t : Tuning) :
    FractionLegal t.validated.fraction ∧ RateLegal t.validated.rate ∧
      ThresholdLegal t.validated.threshold ∧ GhostCapacityLegal t.validated.ghostCapacity :=
  ⟨legal_or_default _ _ (by decide), legal_or_default _ _ (by decide),
    legal_or_default _ _ (by decide), legal_or_default _ _ (by decide)⟩

end Tuning

end RefCache
