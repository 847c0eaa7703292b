import RefCache.Proofs.Budget.Steps
import RefCache.Proofs.Ownership.Discard
import RefCache.Proofs.Ownership.Trace

/-!
# The policy keeps to its budget

The budget of the policy is the room that the entries in use leave, and no more than the limits of the
eviction queue. Evicting brings the policy down to it, and discarding what was evicted leaves the
entries in use alone, so the budget is still the same afterwards (`Orderly.evict_withinBudget`). The
operations that do not evict leave the policy with no more than it had before.

* `WithinBudget.apply`: every operation leaves the policy within its budget
* `Trace.withinBudget`: and so does everything that becomes of a cache
-/

namespace RefCache

universe u

variable {κ : Type u} [Key κ]

namespace Cache

/-- The exclusive entries are no more, and no larger, than the policy may keep. -/
structure WithinBudget (c : Cache κ) : Prop where
  count_le : c.policy.count ≤ c.queueBudget.1
  size_le : c.policy.size ≤ c.queueBudget.2

variable {c c' : Cache κ}

/-! ## Entries in use -/

theorem busy_congr (hcached : c'.cached.toList = c.cached.toList)
    (hclients : ∀ id, c'.entries.clients id = c.entries.clients id) : c'.busy = c.busy := by
  rw [busy, busy, hcached]
  refine List.filter_congr fun x _ => ?_
  rw [idle, idle, hclients]

/-- When only entries without clients leave, those in use are the same as before. -/
theorem busy_filter (gone : κ → Bool)
    (hidle : ∀ x ∈ c.cached.toList, gone x.1 = true → c.idle x = true)
    (hcached : c'.cached.toList = c.cached.toList.filter fun x => !gone x.1)
    (hclients : ∀ id, c'.entries.clients id = c.entries.clients id) : c'.busy = c.busy := by
  rw [busy, busy, hcached, List.filter_filter]
  refine List.filter_congr fun x hx => ?_
  rw [idle, hclients, ← idle]
  cases hg : gone x.1 with
  | false => rw [Bool.not_false, Bool.and_true]
  | true => rw [hidle x hx hg, Bool.not_true, Bool.false_and]

/-- Without exclusive entries the policy is within every budget. -/
theorem withinBudget_of_items_eq_nil (h : c.policy.items = []) : c.WithinBudget where
  count_le := by
    rw [c.policy.count_eq_length, h]
    exact Nat.zero_le _
  size_le := by
    rw [c.policy.size_eq_totalOf, h]
    exact Nat.zero_le _

/-- The budget is decided by the entries in use and the limits. -/
theorem queueBudget_eq (hc : c.Owned) (hc' : c'.Owned) (hbusy : c'.busy = c.busy)
    (hlimits : c'.limits = c.limits) : c'.queueBudget = c.queueBudget := by
  rw [queueBudget, queueBudget, hc.inUseCount_eq, hc'.inUseCount_eq, hc.inUseSize_eq,
    hc'.inUseSize_eq, hbusy, hlimits]

/-- Of what is measured there is no more in the policy than before, and no more in the policy and in use
together. -/
structure NoMore (kept inUse kept' inUse' : Nat) : Prop where
  kept_le : kept' ≤ kept
  total_le : inUse' + kept' ≤ inUse + kept

/-- What keeps to a limit beside what is in use still does when there is no more of it. -/
theorem NoMore.le_min {kept inUse kept' inUse' bound limit : Nat} (h : NoMore kept inUse kept' inUse')
    (hle : kept ≤ min bound (limit - inUse)) : kept' ≤ min bound (limit - inUse') := by
  obtain ⟨hkept, htotal⟩ := h
  omega

/-- Under the same limits, a policy that keeps no more than before stays within its budget as long as what is in
use takes no more room than the policy gives up. -/
theorem WithinBudget.of_noMore (h : c.WithinBudget) (hlimits : c'.limits = c.limits)
    (hcount : NoMore c.policy.count c.inUseCount c'.policy.count c'.inUseCount)
    (hsize : NoMore c.policy.size c.inUseSize c'.policy.size c'.inUseSize) : c'.WithinBudget where
  count_le := by
    unfold queueBudget
    rw [hlimits]
    exact hcount.le_min h.count_le
  size_le := by
    unfold queueBudget
    rw [hlimits]
    exact hsize.le_min h.size_le

/-- With the same entries in use, the policy stays within its budget as long as it does not grow. -/
theorem WithinBudget.of_busy_eq (h : c.WithinBudget) (hc : c.Owned) (hc' : c'.Owned)
    (hbusy : c'.busy = c.busy) (hlimits : c'.limits = c.limits)
    (hcount : c'.policy.count ≤ c.policy.count) (hsize : c'.policy.size ≤ c.policy.size) :
    c'.WithinBudget := by
  have hbudget := queueBudget_eq hc hc' hbusy hlimits
  exact ⟨hbudget ▸ Nat.le_trans hcount h.count_le, hbudget ▸ Nat.le_trans hsize h.size_le⟩

/-- When the same is cached and the policy keeps no more of it, the policy needs no more room than before, since
what it no longer keeps is in use. -/
theorem WithinBudget.of_cached_eq (h : c.WithinBudget) (howned : c.Owned) (hcached : c'.cached = c.cached)
    (hlimits : c'.limits = c.limits) (hcount : c'.policy.count ≤ c.policy.count)
    (hsize : c'.policy.size ≤ c.policy.size) : c'.WithinBudget := by
  have hcountLe := howned.policy_count_le
  have hsizeLe := howned.policy_size_le
  refine h.of_noMore hlimits ⟨hcount, ?_⟩ ⟨hsize, ?_⟩
  · rw [inUseCount, inUseCount, hcached, wordSub_of_le hcountLe, wordSub_of_le (Nat.le_trans hcount hcountLe)]
    omega
  · rw [inUseSize, inUseSize, hcached, wordSub_of_le hsizeLe, wordSub_of_le (Nat.le_trans hsize hsizeLe)]
    omega

end Cache

namespace Transition

/-- Looking at the limits changes nobody's clients. -/
theorem busy_reload (t : Transition κ) (w : Surroundings) : (t.reload w).cache.busy = t.cache.busy :=
  Cache.busy_congr (by rw [cached_reload]) fun id => by rw [entries_reload]

/-- Entries in use, policy and limits are the same. -/
structure Spares (t t' : Transition κ) : Prop where
  busy_eq : t'.cache.busy = t.cache.busy
  policy_eq : t'.cache.policy = t.cache.policy
  limits_eq : t'.cache.limits = t.cache.limits

/-- An entry without clients that leaves the cache was not in use. -/
theorem spares_expelOne {t : Transition κ} {k : κ} {id : EntryId} {size : Nat}
    (hmem : (k, ⟨id, size⟩) ∈ t.cache.cached.toList) (hidle : t.cache.entries.clients id = 0) :
    t.Spares ((t.detach k).2.orphan id) := by
  rw [detach_of_some ((t.cache.cached.get?_eq_some_iff k id).2 ⟨size, hmem⟩)]
  refine ⟨Cache.busy_filter (fun k' => k' = k) ?_ ?_ ?_, rfl, rfl⟩
  · intro x hx hkey
    have hx' : (k, x.2) ∈ t.cache.cached.toList := of_decide_eq_true hkey ▸ hx
    rw [Cache.idle, t.cache.cached.eq_of_mem_toList hx' hmem]
    exact decide_eq_true hidle
  · show (t.cache.cached.erase k).toList = _
    rw [SizedMap.toList_erase]
    exact List.filter_congr fun x _ => by simp
  · exact (EntryTable.ages_update t.cache.entries id Entry.ages_markOrphan).clients_eq

namespace Orderly

variable {t : Transition κ} {table : EntryTable κ} {base : List EntryId}

/-- What the policy gives up was exclusive, so the entries in use stay, and the limits do. -/
theorem yield_leaves (h : t.Orderly table base []) {ids : List EntryId} {policy : Policy κ}
    (hyield : t.cache.policy.Yields ids policy) (call : PolicyCall κ) :
    (((t.modify ({ · with policy := policy })).called call).discard ids).cache.busy = t.cache.busy ∧
      (((t.modify ({ · with policy := policy })).called call).discard ids).cache.limits
        = t.cache.limits := by
  have hrows : ∀ x ∈ t.cache.policy.items, ∃ e,
      t.cache.entries.get? x.2.value = some e ∧ e.key = x.1 := by
    intro x hx
    obtain ⟨e, he, hkey, _⟩ := h.owned.entry_of_cached x (h.owned.cached_of_item hx)
    exact ⟨e, he, hkey⟩
  obtain ⟨out, hperm, hsheds⟩ := yield_sheds hrows hyield call
  refine ⟨Cache.busy_filter (fun k => k ∈ out.map Prod.fst) ?_ ?_ ?_, hsheds.limits_eq⟩
  · -- a row whose key leaves is the row that leaves, and that was idle
    intro x hx hgone
    obtain ⟨y, hy, hkey⟩ := List.mem_map.1 (of_decide_eq_true hgone)
    obtain ⟨hmem, hzero⟩ := h.owned.mem_idle (List.mem_append_right []
      (hperm.mem_iff.2 (List.mem_append_left _ hy)))
    have hx' : (y.1, x.2) ∈ t.cache.cached.toList := hkey ▸ hx
    rw [Cache.idle, t.cache.cached.eq_of_mem_toList hx' hmem]
    exact decide_eq_true hzero
  · rw [hsheds.cached_eq]
    exact List.filter_congr fun x _ => decide_not
  · rw [hsheds.entries_eq]
    exact (EntryTable.ages_foldl_markOrphan _ _).clients_eq

/-- An eviction leaves the entries in use and the limits alone. -/
theorem evict_leaves (h : t.Orderly table base []) :
    t.evict.cache.busy = t.cache.busy ∧ t.evict.cache.limits = t.cache.limits :=
  h.yield_leaves (t.cache.policy.evict_yields _ _ _) _

/-- After an eviction the policy is within its budget. -/
theorem evict_withinBudget (h : t.Orderly table base []) (hshares : t.cache.policy.SharesFit) :
    t.evict.cache.WithinBudget := by
  obtain ⟨hbusy, hlimits⟩ := h.evict_leaves
  have hbudget := Cache.queueBudget_eq h.owned h.evict.owned hbusy hlimits
  constructor
  · rw [t.policy_evict, hbudget]
    exact Policy.evict_count_le hshares _ _ _
  · rw [t.policy_evict, hbudget]
    exact Policy.evict_size_le hshares _ _ _

end Orderly

end Transition

namespace Cache

variable {c c' : Cache κ} {base : List EntryId} {ops : List (Operation κ)}

/-! ## Operations -/

theorem WithinBudget.probe (h : c.WithinBudget) (howned : c.Owned) (hkept : c.KeepsOrphans base)
    (k : κ) : (c.probe k).cache.WithinBudget := by
  have horderly := probe_orderly howned hkept k
  have hitems : (c.policy.probe c.entries k).1.items.Perm c.policy.items := by
    refine Policy.items_probe _ _ _ howned.nodup_item_keys fun x hx => ?_
    obtain ⟨e, he, hkey, hsize, _⟩ := howned.entry_of_cached x (howned.cached_of_item hx)
    exact ⟨e, he, hkey, hsize⟩
  refine h.of_busy_eq howned horderly.owned (busy_congr rfl horderly.marks.clients_eq) rfl ?_ ?_
  · have hcount : (c.policy.probe c.entries k).1.count = c.policy.count := by
      rw [Policy.count_eq_length, Policy.count_eq_length, hitems.length_eq]
    exact Nat.le_of_eq hcount
  · have hsize : (c.policy.probe c.entries k).1.size = c.policy.size := by
      rw [Policy.size_eq_totalOf, Policy.size_eq_totalOf, totalOf_perm _ hitems]
    exact Nat.le_of_eq hsize

/-- What is taken out for its value was exclusive, so nothing in use leaves. -/
theorem spares_reuse (howned : c.Owned) (k : κ) : (c.start.unqueue k).2.Spares (c.reuse k).2 := by
  have hunqueue := c.start.cache_unqueue k
  unfold Cache.reuse
  dsimp only
  split
  · exact ⟨rfl, rfl, rfl⟩
  · rename_i id hfound
    have hremoved : (c.policy.remove k).1 = some id := by
      rw [← hfound]
      exact (c.start.unqueue_fst k).symm
    -- what leaves was exclusive, so it was idle
    obtain ⟨size, hmem⟩ := c.policy.mem_items_of_remove k id hremoved
    obtain ⟨hcached, hzero⟩ := howned.mem_idle (List.mem_append_right _ hmem)
    have hmem' : (k, ⟨id, size⟩) ∈ (c.start.unqueue k).2.cache.cached.toList := by
      rw [hunqueue]
      exact hcached
    refine Transition.spares_expelOne hmem' ?_
    rw [hunqueue]
    exact hzero

theorem busy_reuse (howned : c.Owned) (k : κ) : (c.reuse k).2.cache.busy = c.busy := by
  rw [(spares_reuse howned k).busy_eq, c.start.cache_unqueue]
  rfl

theorem policy_reuse (howned : c.Owned) (k : κ) :
    (c.reuse k).2.cache.policy = (c.policy.remove k).2 := by
  rw [(spares_reuse howned k).policy_eq, c.start.cache_unqueue]
  rfl

theorem limits_reuse (howned : c.Owned) (k : κ) : (c.reuse k).2.cache.limits = c.limits := by
  rw [(spares_reuse howned k).limits_eq, c.start.cache_unqueue]
  rfl

theorem WithinBudget.reuse (h : c.WithinBudget) (howned : c.Owned) (hkept : c.KeepsOrphans base)
    (k : κ) : (c.reuse k).2.cache.WithinBudget := by
  have horderly := reuse_orderly howned hkept k
  refine h.of_busy_eq howned horderly.owned (busy_reuse howned k) (limits_reuse howned k) ?_ ?_
  · rw [policy_reuse howned]
    exact c.policy.count_remove_le k
  · rw [policy_reuse howned]
    exact c.policy.size_remove_le k

/-- Nothing is exclusive after everything has been taken out. -/
theorem items_clear (howned : c.Owned) (s : Surroundings) : (c.clear s).cache.policy.items = [] := by
  have hpolicy : (c.clear s).cache.policy = (c.policy.removeAll .always []).2 := by
    unfold clear
    rw [Transition.policy_reload, Transition.cache_removeMatching]
    rfl
  rw [hpolicy, Policy.items_removeAll_of_keyDetermined _ Predicate.keyDetermined_always []
    howned.nodup_item_keys]
  exact List.filter_eq_nil_iff.2 fun _ _ => Bool.false_ne_true

theorem withinBudget_clear (howned : c.Owned) (s : Surroundings) :
    (c.clear s).cache.WithinBudget :=
  withinBudget_of_items_eq_nil (items_clear howned s)

/-- Every operation leaves the policy within its budget. -/
theorem WithinBudget.apply (h : c.WithinBudget) (howned : c.Owned) (hkept : c.KeepsOrphans base)
    (hshares : c.policy.SharesFit) {op : Operation κ} (hop : op.KeyDetermined)
    (haccepts : c.Accepts base op) : (c.apply op).cache.WithinBudget := by
  cases hevicts : op.evicts with
  | true =>
    rw [apply_eq, if_pos hevicts]
    exact (beforeEviction_orderly howned hkept hop haccepts).evict_withinBudget
      ((c.keeps_beforeEviction op).shares hshares)
  | false =>
    cases op with
    | probe k => exact h.probe howned hkept k
    | reuse k => exact h.reuse howned hkept k
    | clear s => exact withinBudget_clear howned s
    | _ => exact nomatch hevicts

theorem Trace.sharesFit (htrace : c.Trace ops c') (hshares : c.policy.SharesFit) :
    c'.policy.SharesFit := by
  induction htrace with
  | start => exact hshares
  | perform _ _ _ _ ih => exact (keeps_apply _ _).shares ih
  | forget _ _ ih => exact ih
  | tearDown _ _ _ ih => exact ih.emptied

/-- Whatever becomes of a cache, its policy keeps to its budget. -/
theorem Trace.withinBudget (htrace : c.Trace ops c') (howned : c.Owned) (h : c.WithinBudget)
    (hshares : c.policy.SharesFit) : c'.WithinBudget := by
  induction htrace with
  | start => exact h
  | perform before determined kept accepts ih =>
    exact ih.apply (before.owned howned) kept (before.sharesFit hshares) determined accepts
  | forget _ _ ih => exact ⟨ih.count_le, ih.size_le⟩
  | tearDown _ _ _ _ => exact withinBudget_of_items_eq_nil (Policy.items_emptied _)

end Cache

end RefCache
