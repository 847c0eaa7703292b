/-! # Machine words

Sizes are added up and taken off in machine words of 64 bits, which wrap around. A `Tally` is a total that is
kept that way, together with the number that it stands for; the proof field `word_eq` says that the word is that
number for as long as it fits, and what is left of it afterwards. A difference of two totals wraps around where
it would fall below zero (`wordSub`). -/

namespace RefCache

/-- A total that is kept up to date in a machine word. -/
structure Tally where
  /-- What was added less what was taken off, however much it is. -/
  number : Nat
  /-- The word in which the total is kept. -/
  word : UInt64
  word_eq : word = UInt64.ofNat number
deriving DecidableEq, Repr

namespace Tally

/-- The total that stands for a number. -/
def ofNat (n : Nat) : Tally :=
  ⟨n, UInt64.ofNat n, rfl⟩

instance : Coe Nat Tally := ⟨ofNat⟩

instance (n : Nat) : OfNat Tally n := ⟨ofNat n⟩

instance : Inhabited Tally := ⟨0⟩

/-- Adds so much to the total. -/
def add (t : Tally) (n : Nat) : Tally where
  number := t.number + n
  word := t.word + UInt64.ofNat n
  word_eq := by rw [t.word_eq, UInt64.ofNat_add]

/-- Takes so much off the total, of which it is a part. -/
def takeOff (t : Tally) (n : Nat) (h : n ≤ t.number) : Tally where
  number := t.number - n
  word := t.word - UInt64.ofNat n
  word_eq := by rw [t.word_eq, UInt64.ofNat_sub h]

@[simp] theorem number_zero : (0 : Tally).number = 0 := rfl

@[simp] theorem number_add (t : Tally) (n : Nat) : (t.add n).number = t.number + n := rfl

@[simp] theorem word_add (t : Tally) (n : Nat) : (t.add n).word = t.word + UInt64.ofNat n := rfl

@[simp] theorem number_takeOff (t : Tally) (n : Nat) (h : n ≤ t.number) :
    (t.takeOff n h).number = t.number - n := rfl

@[simp] theorem word_takeOff (t : Tally) (n : Nat) (h : n ≤ t.number) :
    (t.takeOff n h).word = t.word - UInt64.ofNat n := rfl

/-- The number decides the word. -/
@[ext] theorem ext {t t' : Tally} (h : t.number = t'.number) : t = t' := by
  obtain ⟨n, w, hw⟩ := t
  obtain ⟨n', w', hw'⟩ := t'
  obtain rfl : n = n' := h
  rw [Tally.mk.injEq, hw, hw']
  exact ⟨rfl, rfl⟩

theorem add_zero (t : Tally) : t.add 0 = t :=
  ext rfl

/-- What is added bit by bit can be added at once. -/
theorem add_add (t : Tally) (m n : Nat) : (t.add m).add n = t.add (m + n) :=
  ext (Nat.add_assoc t.number m n)

/-- The word is the remainder of the number. -/
theorem toNat_word (t : Tally) : t.word.toNat = t.number % UInt64.size := by
  rw [t.word_eq, UInt64.toNat_ofNat']

/-- The word shows the number exactly as long as the number fits. -/
theorem toNat_word_eq_iff (t : Tally) : t.word.toNat = t.number ↔ t.number < UInt64.size := by
  rw [t.toNat_word]
  constructor
  · intro h
    rw [← h]
    exact Nat.mod_lt _ (by decide)
  · exact Nat.mod_eq_of_lt

end Tally

/-! ## Differences -/

/-- What is left of one total when another one is taken off it, as machine words have it: where the second total
is the larger one, the difference wraps around. -/
def wordSub (a b : Nat) : Nat :=
  if b ≤ a then a - b else a + UInt64.size - b

theorem wordSub_of_le {a b : Nat} (h : b ≤ a) : wordSub a b = a - b :=
  if_pos h

/-- The difference of two words is that of the totals they stand for, provided that the second total and the
difference are words themselves; the first total need not be. -/
theorem toNat_ofNat_sub {a b : Nat} (hb : b < UInt64.size) (hfits : a - b < UInt64.size) :
    (UInt64.ofNat a - UInt64.ofNat b).toNat = wordSub a b := by
  by_cases h : b ≤ a
  · rw [wordSub_of_le h, ← UInt64.ofNat_sub h, UInt64.toNat_ofNat_of_lt' hfits]
  · -- what falls below zero wraps around once
    have ha := Nat.lt_trans (Nat.lt_of_not_le h) hb
    rw [wordSub, if_neg h, UInt64.toNat_sub, UInt64.toNat_ofNat_of_lt' hb, UInt64.toNat_ofNat_of_lt' ha]
    have hsize : UInt64.size = 2 ^ 64 := rfl
    omega

end RefCache
