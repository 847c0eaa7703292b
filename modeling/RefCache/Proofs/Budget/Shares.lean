import RefCache.Proofs.Exclusive

/-!
# The shares of the pools fit their total

The adaptive policy keeps to a budget by keeping each pool to its share, and both shares are rounded on
their own. They fit as long as the share of the first pool is no more than the whole, which needs the
step by which it moves not to be negative (`Policy.SharesFit`). A new policy has such shares, and no
operation of a policy takes them away.

* `evict_count_le` / `evict_size_le`: what is left after an eviction keeps to the budget
-/

namespace RefCache

universe u

variable {κ : Type u} [Key κ]

/-- A share of no more than the whole is no more than the total. -/
theorem share_le (total : Nat) {promil : Int} (h : promil ≤ wholePromil) :
    share total promil ≤ total := by
  have hpromil : promil.toNat ≤ wholePromil.toNat := Int.toNat_le_toNat h
  calc share total promil = total * promil.toNat / wholePromil.toNat := rfl
    _ ≤ total * wholePromil.toNat / wholePromil.toNat :=
      Nat.div_le_div_right (Nat.mul_le_mul_left total hpromil)
    _ = total := Nat.mul_div_cancel total (by decide)

/-- A larger total has a larger share, -/
theorem share_le_share {total total' : Nat} (h : total ≤ total') (promil : Int) :
    share total promil ≤ share total' promil :=
  Nat.div_le_div_right (Nat.mul_le_mul_right promil.toNat h)

/-- and leaves more beside it. -/
theorem sub_share_le_sub_share {total total' : Nat} (h : total ≤ total') {promil : Int}
    (hpart : promil ≤ wholePromil) : total - share total promil ≤ total' - share total' promil := by
  have hpromil : promil.toNat ≤ wholePromil.toNat := Int.toNat_le_toNat hpart
  have hgrowth : share total' promil ≤ share total promil + (total' - total) :=
    calc share total' promil = (total * promil.toNat + (total' - total) * promil.toNat) / wholePromil.toNat := by
          rw [← Nat.add_mul, Nat.add_sub_cancel' h]
          rfl
      _ ≤ (total * promil.toNat + (total' - total) * wholePromil.toNat) / wholePromil.toNat :=
        Nat.div_le_div_right (Nat.add_le_add_left (Nat.mul_le_mul_left _ hpromil) _)
      _ = share total promil + (total' - total) := Nat.add_mul_div_right _ _ (by decide)
  have hle := share_le total' hpart
  omega

namespace Policy

/-- The shares of the pools are parts of the whole, and stay so. -/
def SharesFit : Policy κ → Prop
  | lru _ => True
  | adaptive a => a.fraction ≤ wholePromil ∧ 0 ≤ a.rate

/-! ## Keeping to a budget -/

theorem evict_count_le {p : Policy κ} (h : p.SharesFit) (accesses : EntryId → Nat)
    (maxCount maxSize : Nat) : (p.evict accesses maxCount maxSize).2.count ≤ maxCount := by
  cases p with
  | lru queue => exact queue.trimTo_count_le accesses maxCount maxSize
  | adaptive a =>
    -- the two shares make up the whole
    have hshare := share_le maxCount h.1
    have hlfu := a.lfu.trimTo_count_le accesses (share maxCount a.fraction)
      (share maxSize a.fraction)
    have hmfu := a.mfu.trimTo_count_le accesses (maxCount - share maxCount a.fraction)
      (maxSize - share maxSize a.fraction)
    show (a.evict accesses maxCount maxSize).2.lfu.count
      + (a.evict accesses maxCount maxSize).2.mfu.count ≤ maxCount
    unfold Adaptive.evict
    dsimp only
    omega

theorem evict_size_le {p : Policy κ} (h : p.SharesFit) (accesses : EntryId → Nat)
    (maxCount maxSize : Nat) : (p.evict accesses maxCount maxSize).2.size ≤ maxSize := by
  cases p with
  | lru queue => exact queue.trimTo_size_le accesses maxCount maxSize
  | adaptive a =>
    have hshare := share_le maxSize h.1
    have hlfu := a.lfu.trimTo_size_le accesses (share maxCount a.fraction)
      (share maxSize a.fraction)
    have hmfu := a.mfu.trimTo_size_le accesses (maxCount - share maxCount a.fraction)
      (maxSize - share maxSize a.fraction)
    show (a.evict accesses maxCount maxSize).2.lfu.size
      + (a.evict accesses maxCount maxSize).2.mfu.size ≤ maxSize
    unfold Adaptive.evict
    dsimp only
    omega

/-! ## No operation takes the shares away -/

theorem sharesFit_newLru : (newLru : Policy κ).SharesFit :=
  trivial

theorem sharesFit_newAdaptive (t : Tuning) : (newAdaptive t : Policy κ).SharesFit := by
  obtain ⟨hfraction, hrate, _⟩ := t.validated_legal
  refine ⟨?_, Int.le_of_lt hrate.1⟩
  exact Int.le_trans hfraction.2 (by decide)

namespace SharesFit

variable {p : Policy κ}

theorem remove (h : p.SharesFit) (k : κ) : (p.remove k).2.SharesFit := by
  cases p with
  | lru _ => trivial
  | adaptive _ => exact h

theorem removeAll (h : p.SharesFit) (pred : Predicate κ) (asked : List κ) :
    (p.removeAll pred asked).2.SharesFit := by
  cases p with
  | lru _ => trivial
  | adaptive _ => exact h

theorem evict (h : p.SharesFit) (accesses : EntryId → Nat) (maxCount maxSize : Nat) :
    (p.evict accesses maxCount maxSize).2.SharesFit := by
  cases p with
  | lru _ => trivial
  | adaptive _ => exact h

theorem trim (h : p.SharesFit) (accesses : EntryId → Nat) (target : Nat) :
    (p.trim accesses target).2.SharesFit := by
  cases p with
  | lru _ => trivial
  | adaptive _ => exact h

theorem emptied (h : p.SharesFit) : p.emptied.SharesFit := by
  cases p with
  | lru _ => trivial
  | adaptive _ => exact h

theorem enqueue (h : p.SharesFit) (id : EntryId) (e : Entry κ) : (p.enqueue id e).SharesFit := by
  cases p with
  | lru _ => trivial
  | adaptive a =>
    show (Policy.adaptive (a.enqueue id e)).SharesFit
    unfold Adaptive.enqueue
    split <;> exact h

theorem probe (h : p.SharesFit) (table : EntryTable κ) (k : κ) : (p.probe table k).1.SharesFit := by
  rcases p.probe_fst_cases table k with heq | ⟨id, e, _, heq⟩
  · rw [heq]
    exact h.remove k
  · rw [heq]
    exact (h.remove k).enqueue id e

/-- A step that is taken at all keeps within the bounds of the fraction. -/
theorem onMiss (h : p.SharesFit) (k : κ) : (p.onMiss k).SharesFit := by
  cases p with
  | lru _ => trivial
  | adaptive a =>
    -- a larger fraction is checked against its bound; a smaller one needs a step that is not negative
    have hgrow : ∀ a : Adaptive κ, (Policy.adaptive a).SharesFit →
        (Policy.adaptive a.growFraction).SharesFit := by
      intro a ha
      unfold Adaptive.growFraction
      split
      · rename_i hlegal
        exact ⟨Int.le_trans hlegal (by decide), ha.2⟩
      · exact ha
    have hshrink : ∀ a : Adaptive κ, (Policy.adaptive a).SharesFit →
        (Policy.adaptive a.shrinkFraction).SharesFit := by
      intro a ha
      unfold Adaptive.shrinkFraction
      split
      · exact ⟨Int.le_trans (Int.sub_le_self _ ha.2) ha.1, ha.2⟩
      · exact ha
    show (Policy.adaptive (a.onMiss k)).SharesFit
    unfold Adaptive.onMiss
    dsimp only
    split
    · exact hgrow _ h
    · split
      · exact hshrink _ h
      · exact h

end SharesFit

end Policy

end RefCache
