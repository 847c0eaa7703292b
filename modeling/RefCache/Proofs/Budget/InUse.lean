import RefCache.Proofs.Budget.Capped
import RefCache.Proofs.Chronicle.Departures
import RefCache.Proofs.Ownership.Forgetting

/-!
# What is in use decides about a value

Whether a value is taken in depends on the limits that the call finds in effect (`Cache.limitsAt`) and on the
entries in use under other keys (`Cache.isSome_store_iff`). So two caches decide alike that have the same entries in
use (`Cache.SameInUse`), whichever exclusive entries there are.
-/

namespace RefCache

universe u

variable {κ : Type u} [Key κ]

namespace Cache

/-- The limits that an operation looks at: those offered, if new ones are due. -/
def limitsAt (c : Cache κ) (w : Surroundings) : Limits :=
  if c.reloadDue w.now then w.offered else c.limits

/-- The same entries are in use, under the same limits since the same time. -/
structure SameInUse (c c' : Cache κ) : Prop where
  owned : c'.Owned
  busy_eq : c'.busy = c.busy
  limits_eq : c'.limits = c.limits
  lastCheck_eq : c'.lastCheck = c.lastCheck

variable {c c' c'' : Cache κ} {limits : Limits}

/-! ## One value -/

theorem limitsAt_eq (hlimits : c.limits = limits) {w : Surroundings} (hw : w.offered = limits) :
    c.limitsAt w = limits := by
  unfold limitsAt
  split
  · exact hw
  · exact hlimits

theorem limits_reload (c : Cache κ) (w : Surroundings) : (c.start.reload w).cache.limits = c.limitsAt w := by
  unfold Transition.reload limitsAt
  split
  · rename_i hdue
    exact (if_pos hdue).symm
  · rename_i hdue
    exact (if_neg hdue).symm

theorem isSome_store_iff (howned : c.Owned) (w : Surroundings) (k : κ) (value : ValueId) (size : Nat)
    (observer : Option String) : (c.store w k value size observer).1.isSome = true ↔
      size ≤ (c.limitsAt w).maxEntrySize ∧
        (c.busy.filter (·.1 ≠ k)).length < (c.limitsAt w).maxEntries ∧
        size ≤ (c.limitsAt w).maxSize - totalOf (fun x => x.2.size) (c.busy.filter (·.1 ≠ k)) := by
  have hreload := (start_orderly howned c.keepsOrphans_range).reload w
  have hbusy : (c.start.reload w).cache.busy = c.busy := c.start.busy_reload w
  rw [isSome_store, admits_iff_beside hreload.owned, hbusy, limits_reload]

/-! ## The same in use -/

theorem SameInUse.trans (h : c.SameInUse c') (h' : c'.SameInUse c'') : c.SameInUse c'' where
  owned := h'.owned
  busy_eq := h'.busy_eq.trans h.busy_eq
  limits_eq := h'.limits_eq.trans h.limits_eq
  lastCheck_eq := h'.lastCheck_eq.trans h.lastCheck_eq

theorem lastCheck_reuse (c : Cache κ) (k : κ) : (c.reuse k).2.cache.lastCheck = c.lastCheck := by
  have hunqueue : (c.start.unqueue k).2.cache.lastCheck = c.lastCheck := by
    rw [Transition.cache_unqueue]
    rfl
  unfold reuse
  dsimp only
  split
  · exact hunqueue
  · unfold Transition.detach
    split <;> exact hunqueue

theorem sameInUse_reuse (howned : c.Owned) (k : κ) : c.SameInUse (c.reuse k).2.cache where
  owned := (reuse_orderly howned c.keepsOrphans_range k).owned
  busy_eq := busy_reuse howned k
  limits_eq := limits_reuse howned k
  lastCheck_eq := c.lastCheck_reuse k

/-- Whatever exclusive entries are taken out, the same are in use. -/
theorem sameInUse_applyAll_reuse (howned : c.Owned) (keys : List κ) :
    c.SameInUse (c.applyAll (keys.map .reuse)) := by
  induction keys generalizing c with
  | nil => exact ⟨howned, rfl, rfl, rfl⟩
  | cons k rest ih =>
    have hfirst := sameInUse_reuse howned k
    exact hfirst.trans (ih hfirst.owned)

/-- A value is taken in by both caches or by neither. -/
theorem SameInUse.isSome_store (h : c.SameInUse c') (howned : c.Owned) (w : Surroundings) (k : κ)
    (value : ValueId) (size : Nat) (observer : Option String) :
    (c'.store w k value size observer).1.isSome = (c.store w k value size observer).1.isSome := by
  have hlimits : c'.limitsAt w = c.limitsAt w := by
    unfold limitsAt reloadDue
    rw [h.limits_eq, h.lastCheck_eq]
  rw [Bool.eq_iff_iff, isSome_store_iff h.owned, isSome_store_iff howned, hlimits, h.busy_eq]

/-- To forget entries that have left does not concern what is in use. -/
theorem Forgets.sameInUse (h : c.Forgets c') (howned : c.Owned) : c.SameInUse c' where
  owned := h.owned howned
  busy_eq := busy_congr (by rw [h.cached_eq]) h.clients_eq
  limits_eq := h.limits_eq
  lastCheck_eq := h.lastCheck_eq

end Cache

end RefCache
