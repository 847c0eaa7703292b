import RefCache.Proofs.Chronicle.Departures
import RefCache.Proofs.PoolShares

/-!
# When an eviction finds nothing to evict

An eviction leaves the policy alone if every pool has room for its entries as they are, and that is what it
leaves behind (`Policy.evict_snd_eq_self_iff`). A single queue has all the room there is; each of two pools
has its share.

After an operation that brings the pools down to their shares there is room, and a reuse only makes more of it
(`Asked.Ready.hasRoom_of_keepsShares`, `Asked.Ready.hasRoom_reuse`). A probe can take it away from a pool, but not
from a single queue.
-/

namespace RefCache

universe u

variable {κ : Type u} [Key κ]

namespace Policy

/-- Every pool has room for its entries, given so much room in all. -/
def HasRoom : Policy κ → Nat → Nat → Prop
  | lru queue, maxCount, maxSize => Pool.Fits maxCount maxSize queue.entries.toList
  | adaptive a, maxCount, maxSize =>
    Pool.Fits (share maxCount a.fraction) (share maxSize a.fraction) a.lfu.entries.toList ∧
      Pool.Fits (maxCount - share maxCount a.fraction) (maxSize - share maxSize a.fraction)
        a.mfu.entries.toList

variable {p : Policy κ} {maxCount maxSize : Nat}

theorem evict_of_hasRoom (h : p.HasRoom maxCount maxSize) (accesses : EntryId → Nat) :
    p.evict accesses maxCount maxSize = ([], p) := by
  cases p with
  | lru queue =>
    rw [evict, Pool.trimTo_of_fits h]
  | adaptive a =>
    rw [evict, Adaptive.evict, Pool.trimTo_of_fits h.1]
    dsimp only
    rw [Pool.trimTo_of_fits h.2]
    rfl

/-- Whatever has to go for it, there is room afterwards. -/
theorem hasRoom_evict (p : Policy κ) (accesses : EntryId → Nat) (maxCount maxSize : Nat) :
    (p.evict accesses maxCount maxSize).2.HasRoom maxCount maxSize := by
  cases p with
  | lru queue =>
    obtain ⟨_, _, hshortest, _⟩ := queue.trimTo_spec accesses maxCount maxSize
    exact hshortest.fits
  | adaptive a =>
    obtain ⟨_, _, _, hpoolwise⟩ := a.evict_spec accesses maxCount maxSize
    exact ⟨hpoolwise.lfu.fits, hpoolwise.mfu.fits⟩

theorem evict_snd_eq_self_iff (p : Policy κ) (accesses : EntryId → Nat) (maxCount maxSize : Nat) :
    (p.evict accesses maxCount maxSize).2 = p ↔ p.HasRoom maxCount maxSize := by
  constructor
  · intro hself
    have hroom := p.hasRoom_evict accesses maxCount maxSize
    rwa [hself] at hroom
  · intro hroom
    rw [evict_of_hasRoom hroom]

/-- If nothing is evicted, nothing had to go. -/
theorem evict_fst_eq_nil_iff (p : Policy κ) (accesses : EntryId → Nat) (maxCount maxSize : Nat) :
    (p.evict accesses maxCount maxSize).1 = [] ↔ p.HasRoom maxCount maxSize := by
  refine ⟨fun hnone => ?_, fun hroom => by rw [evict_of_hasRoom hroom]⟩
  cases p with
  | lru queue =>
    obtain ⟨out, hids, hshortest, _⟩ := queue.trimTo_spec accesses maxCount maxSize
    obtain rfl : out = [] := List.map_eq_nil_iff.1 (hids.symm.trans hnone)
    exact hshortest.fits_of_nil
  | adaptive a =>
    obtain ⟨fromLfu, fromMfu, hids, hpoolwise⟩ := a.evict_spec accesses maxCount maxSize
    have hout : fromLfu ++ fromMfu = [] := List.map_eq_nil_iff.1 (hids.symm.trans hnone)
    obtain ⟨rfl, rfl⟩ := List.append_eq_nil_iff.1 hout
    exact ⟨hpoolwise.lfu.fits_of_nil, hpoolwise.mfu.fits_of_nil⟩

/-- Taking an entry out takes no room away. -/
theorem HasRoom.remove (h : p.HasRoom maxCount maxSize) (k : κ) :
    (p.remove k).2.HasRoom maxCount maxSize := by
  have hpool : ∀ q : Pool κ, (q.remove k).2.entries.toList.Sublist q.entries.toList := by
    intro q
    rw [Pool.remove, SizedMap.toList_erase]
    exact List.filter_sublist
  cases p with
  | lru queue => exact h.sublist (hpool queue)
  | adaptive a => exact ⟨h.1.sublist (hpool a.lfu), h.2.sublist (hpool a.mfu)⟩

/-- Taking out the entries that a predicate chooses takes no room away either. -/
theorem HasRoom.removeAll (h : p.HasRoom maxCount maxSize) (pred : Predicate κ) (asked : List κ) :
    (p.removeAll pred asked).2.HasRoom maxCount maxSize := by
  have hpool : ∀ (q : Pool κ) asked, (q.removeAll pred asked).2.entries.toList.Sublist q.entries.toList := by
    intro q asked
    rw [Pool.removeAll, SizedMap.removeAll, SizedMap.toList_eraseMany]
    exact List.filter_sublist
  cases p with
  | lru queue => exact h.sublist (hpool queue asked)
  | adaptive a => exact ⟨h.1.sublist (hpool a.lfu _), h.2.sublist (hpool a.mfu _)⟩

/-- Where there is more room in all, every pool has more. -/
theorem HasRoom.of_le (h : p.HasRoom maxCount maxSize) (hshares : p.SharesFit) {maxCount' maxSize' : Nat}
    (hcount : maxCount ≤ maxCount') (hsize : maxSize ≤ maxSize') : p.HasRoom maxCount' maxSize' := by
  cases p with
  | lru queue => exact ⟨Nat.le_trans h.1 hcount, Nat.le_trans h.2 hsize⟩
  | adaptive a =>
    obtain ⟨hlfu, hmfu⟩ := h
    refine ⟨⟨Nat.le_trans hlfu.1 ?_, Nat.le_trans hlfu.2 ?_⟩,
      Nat.le_trans hmfu.1 ?_, Nat.le_trans hmfu.2 ?_⟩
    · exact share_le_share hcount _
    · exact share_le_share hsize _
    · exact sub_share_le_sub_share hcount hshares.1
    · exact sub_share_le_sub_share hsize hshares.1

theorem hasRoom_of_items_eq_nil (h : p.items = []) (maxCount maxSize : Nat) :
    p.HasRoom maxCount maxSize := by
  cases p with
  | lru queue =>
    rw [items_lru] at h
    simp [HasRoom, Pool.Fits, h]
  | adaptive a =>
    rw [items_adaptive, List.append_eq_nil_iff] at h
    simp [HasRoom, Pool.Fits, h]

/-- A single queue has room when it is within the bounds as a whole. -/
theorem hasRoom_iff_of_learns_nothing (h : p.knowledge? = none) :
    p.HasRoom maxCount maxSize ↔ p.count ≤ maxCount ∧ p.size ≤ maxSize := by
  obtain ⟨queue, rfl⟩ := exists_queue h
  rw [count, size, Pool.count_eq_length, Pool.size_eq_totalOf]
  rfl

end Policy

namespace Cache

/-- Every pool has room for its entries, within what the policy may keep. -/
def HasRoom (c : Cache κ) : Prop :=
  c.policy.HasRoom c.queueBudget.1 c.queueBudget.2

theorem hasRoom_iff_withinBudget {c : Cache κ} (h : c.policy.knowledge? = none) :
    c.HasRoom ↔ c.WithinBudget :=
  (Policy.hasRoom_iff_of_learns_nothing h).trans ⟨fun hfits => ⟨hfits.1, hfits.2⟩, fun hbudget =>
    ⟨hbudget.count_le, hbudget.size_le⟩⟩

/-- To forget entries that have left makes no difference. -/
theorem HasRoom.of_forgets {c c' : Cache κ} (h : c.HasRoom) (hforgets : c.Forgets c') : c'.HasRoom := by
  unfold HasRoom queueBudget inUseCount inUseSize at *
  rwa [hforgets.policy_eq, hforgets.cached_eq, hforgets.limits_eq]

end Cache

namespace Transition

/-- Where there is room, an eviction makes a call on the policy and does nothing else. -/
theorem evict_of_hasRoom {t : Transition κ} (h : t.cache.HasRoom) :
    t.evict = t.called (.evict t.cache.queueBudget.1 t.cache.queueBudget.2 []) := by
  have hevicted : t.evicted = ([], t.cache.policy) := Policy.evict_of_hasRoom h _
  rw [evict_eq, hevicted]
  rfl

end Transition

namespace Cache

variable {c : Cache κ} {op : Operation κ}

/-- Where there is room an operation does no more than it does before the eviction. -/
theorem cache_apply_of_hasRoom (hroom : (c.beforeEviction op).cache.HasRoom) :
    (c.apply op).cache = (c.beforeEviction op).cache := by
  rw [apply_eq]
  split
  · rw [Transition.evict_of_hasRoom hroom]
    rfl
  · rfl

theorem notices_apply_of_hasRoom (hroom : (c.beforeEviction op).cache.HasRoom) :
    (c.apply op).notices = (c.beforeEviction op).notices := by
  rw [apply_eq]
  split
  · rw [Transition.evict_of_hasRoom hroom]
    rfl
  · rfl

theorem evicted_of_hasRoom (htrims : op.TrimsNothing)
    (hroom : (c.beforeEviction op).cache.HasRoom) : (⟨c, op⟩ : Asked κ).evicted = [] := by
  have htrimmed : (⟨c, op⟩ : Asked κ).trimmed = [] := by
    cases op with
    | trim => exact htrims.elim
    | _ => rfl
  have hlimited : (⟨c, op⟩ : Asked κ).limited = [] := by
    unfold Asked.limited
    split
    · exact congrArg Prod.fst (Policy.evict_of_hasRoom hroom _)
    · rfl
  rw [Asked.evicted, htrimmed, hlimited, List.append_nil]

end Cache

namespace Asked.Ready

variable {x : Asked κ}

/-- After an operation that brings the pools down to their shares, there is room. -/
theorem hasRoom_of_keepsShares (h : x.Ready) (hkeeps : x.op.keepsShares = true) : x.after.HasRoom := by
  cases hevicts : x.op.evicts with
  | true =>
    have hbudget := h.queueBudget_eq hevicts
    have hpolicy : x.after.policy = (x.cache.beforeEviction x.op).evicted.2 := by
      rw [after, x.cache.policy_apply, if_pos hevicts]
    unfold Cache.HasRoom
    rw [hpolicy, ← hbudget]
    exact Policy.hasRoom_evict _ _ _ _
  | false =>
    -- without an eviction, only clearing keeps the shares, and it empties the pools
    obtain ⟨c, op⟩ := x
    cases op with
    | clear s => exact Policy.hasRoom_of_items_eq_nil (Cache.items_clear h.owned s) _ _
    | probe k => simp [Operation.keepsShares] at hkeeps
    | reuse k => simp [Operation.keepsShares] at hkeeps
    | _ => simp [Operation.evicts] at hevicts

theorem hasRoom_reuse {k : κ} (h : x.Ready) (hop : x.op = .reuse k) (hroom : x.cache.HasRoom) :
    x.after.HasRoom := by
  obtain ⟨c, op⟩ := x
  subst hop
  have hbudget : (c.reuse k).2.cache.queueBudget = c.queueBudget :=
    Cache.queueBudget_eq h.owned h.owned_after (Cache.busy_reuse h.owned k) (Cache.limits_reuse h.owned k)
  show (c.reuse k).2.cache.HasRoom
  unfold Cache.HasRoom
  rw [hbudget, Cache.policy_reuse h.owned]
  exact Policy.HasRoom.remove hroom k

/-- In a single queue there is always room. -/
theorem hasRoom_of_learns_nothing (h : x.Ready) (hlearns : x.cache.policy.knowledge? = none)
    (hroom : x.cache.HasRoom) : x.after.HasRoom := by
  obtain ⟨keepers, hkept, haccepts⟩ := h.accepted
  have hshares : x.cache.policy.SharesFit := by
    obtain ⟨queue, hqueue⟩ := Policy.exists_queue hlearns
    rw [hqueue]
    trivial
  have hbudget := (Cache.hasRoom_iff_withinBudget hlearns).1 hroom
  exact (Cache.hasRoom_iff_withinBudget (learns_nothing_after hlearns)).2
    (hbudget.apply h.owned hkept hshares h.determined haccepts)

end Asked.Ready

end RefCache
