import Std.Data.TreeMap

/-! # Keys

A cache is addressed by keys. All the containers of this library need of a key is a total order in
which two keys compare equal only when they are the same key; `Key` bundles that order with its laws,
so that every container lemma holds for every key type without further assumptions. -/

namespace RefCache

universe u

/-- A type of keys: ordered by `compare`, where `compare a b = .eq` holds exactly when `a = b`. -/
class Key (κ : Type u) extends Ord κ where
  [trans : Std.TransOrd κ]
  [lawful : Std.LawfulEqOrd κ]

attribute [instance] Key.trans Key.lawful

instance : Key String where

instance : Key Nat where

/-- Two keys are equal exactly when they compare equal, so equality of keys is decidable. -/
instance (priority := low) Key.decidableEq {κ : Type u} [Key κ] : DecidableEq κ := fun a b =>
  decidable_of_iff (compare a b = .eq) Std.LawfulEqOrd.compare_eq_iff_eq

end RefCache
