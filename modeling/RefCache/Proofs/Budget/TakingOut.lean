import RefCache.Proofs.Budget.InUse
import RefCache.Proofs.Budget.Room
import RefCache.Proofs.Session.Reachable

/-!
# What is taken out can be put back

A value that nobody holds can be taken out of the cache, and nothing else changes with that (`Cache.TakesOut`).
It can be put back at once (`Cache.PutsBack`): as long as the same limits are offered, the cache keeps to them
as a whole, exclusive entries included, so the room that the value had is enough for it to come in again. In a
single queue nothing has to go for it. What was the room of an exclusive entry becomes that of an entry in use.
-/

namespace RefCache

universe u

variable {κ : Type u} [Key κ]

namespace Policy

/-- What is taken out of the pools leaves all else where it is, and the ghosts. -/
theorem pools_remove (p : Policy κ) (k : κ) :
    (p.remove k).2.pools = p.pools.map fun q => (q.remove k).2 := by
  cases p <;> rfl

theorem fraction?_remove (p : Policy κ) (k : κ) : (p.remove k).2.fraction? = p.fraction? := by
  cases p <;> rfl

theorem not_contains_remove (p : Policy κ) (k : κ) : (p.remove k).2.contains k = false := by
  rw [← Bool.not_eq_true, contains_iff_mem_items, items_remove]
  rintro ⟨x, hx, hkey⟩
  exact of_decide_eq_true (List.mem_filter.1 hx).2 hkey

end Policy

namespace Cache

/-- The second cache is the first one without the entry `id` under the key `k`, and the same otherwise. -/
structure IsWithout (c : Cache κ) (k : κ) (id : EntryId) (c' : Cache κ) : Prop where
  not_cached : c'.contains k = false
  not_exclusive : c'.policy.contains k = false
  /-- All other entries are cached as before, in the same order. -/
  cached_eq : c'.cached.toList = c.cached.toList.filter (·.1 ≠ k)
  /-- All others are in their places in the pools, and all ghosts are. -/
  pools_eq : c'.policy.pools.map (fun q => (q.entries.toList, q.ghosts))
    = c.policy.pools.map fun q => (q.entries.toList.filter (·.1 ≠ k), q.ghosts)
  fraction_eq : c'.policy.fraction? = c.policy.fraction?
  limits_eq : c'.limits = c.limits
  others_eq : ∀ j, j ≠ id → c'.entries.get? j = c.entries.get? j

/-- A reuse takes out what is cached under a key and held by nobody. -/
structure TakesOut (c : Cache κ) (k : κ) : Prop where
  found_iff : ∀ id, (c.reuse k).1 = some id ↔ c.cached.get? k = some id ∧ c.entries.clients id = 0
  leaves : ∀ id, (c.reuse k).1 = some id → c.IsWithout k id (c.reuse k).2.cache

/-- A value that was taken out of the cache `c` is put back into the cache `c'` that this has led to. -/
structure PutsBack (c c' : Cache κ) (w : Surroundings) (k : κ) (value : ValueId) (size : Nat)
    (observer : Option String) : Prop where
  accepted : (c'.store w k value size observer).1.isSome = true
  /-- A single queue evicts nothing for it. -/
  evicts_none : ∀ queue, c.policy = .lru queue →
    (⟨c', .store w k value size observer⟩ : Asked κ).evicted = []
  cached_eq : ∀ queue, c.policy = .lru queue → (c'.store w k value size observer).2.cache.cached.toList
    = c.cached.toList.filter (·.1 ≠ k) ++ [(k, ⟨c'.entries.next, size⟩)]
  queue_eq : ∀ queue, c.policy = .lru queue → (c'.store w k value size observer).2.cache.policy.items
    = queue.entries.toList.filter (·.1 ≠ k)

/-- Whatever can be taken out can be put back under the limits `limits`. -/
def PutsAllBack (limits : Limits) (c : Cache κ) : Prop :=
  ∀ k id e (c' : Cache κ) w value observer, (c.reuse k).1 = some id → c.entries.get? id = some e →
    (c.reuse k).2.cache.Forgets c' → w.offered = limits → c.PutsBack c' w k value e.size observer

variable {c c' : Cache κ} {k : κ} {id : EntryId} {e : Entry κ} {limits : Limits}

/-! ## Taking out -/

theorem reuse_fst (c : Cache κ) (k : κ) : (c.reuse k).1 = (c.policy.remove k).1 := by
  cases hfound : (c.policy.remove k).1 with
  | none => rw [reuse_of_none hfound]
  | some id => rw [reuse_of_some hfound]

theorem OwnedExcept.takesOut (howned : c.Owned) (k : κ) : c.TakesOut k where
  found_iff := by
    intro id
    rw [reuse_fst, howned.remove_eq_some_iff]
  leaves := by
    intro id hid
    have hfound : (c.policy.remove k).1 = some id := (c.reuse_fst k).symm.trans hid
    have hpolicy := policy_reuse howned k
    have hrows : (c.reuse k).2.cache.cached.toList = c.cached.toList.filter (·.1 ≠ k) := by
      have hbefore : (c.beforeEviction (.reuse k)).cache.cached.toList = c.cachedAfter (.reuse k) :=
        c.cached_beforeEviction trivial trivial
      unfold cachedAfter at hbefore
      dsimp only at hbefore
      rw [hfound] at hbefore
      exact hbefore
    -- the map, the pools and the table lose the key, and nothing else of theirs changes
    constructor
    · rw [contains, ← Bool.not_eq_true, SizedMap.contains_iff_mem_keys, SizedMap.keys_eq, hrows]
      intro hmem
      obtain ⟨x, hx, hkey⟩ := List.mem_map.1 hmem
      exact of_decide_eq_true (List.mem_filter.1 hx).2 hkey
    · rw [hpolicy]
      exact c.policy.not_contains_remove k
    · exact hrows
    · rw [hpolicy, Policy.pools_remove, List.map_map]
      refine List.map_congr_left fun q _ => ?_
      show ((q.entries.erase k).toList, q.ghosts) = _
      rw [SizedMap.toList_erase]
    · rw [hpolicy]
      exact c.policy.fraction?_remove k
    · exact limits_reuse howned k
    · intro j hj
      rw [reuse_of_some hfound]
      show Register.get? (((c.start.unqueue k).2.detach k).2.cache.entries.update id Entry.markOrphan) j = _
      rw [Register.get?_update, if_neg (Ne.symm hj), Transition.entries_detach, Transition.entries_unqueue]
      rfl

/-! ## Constant limits -/

/-- The cache keeps to the limits `limits`: entry by entry, in its pools and as a whole. -/
structure KeepsTo (limits : Limits) (c : Cache κ) : Prop where
  owned : c.Owned
  shares : c.policy.SharesFit
  within : c.WithinBudget
  capped : c.Capped limits
  entry_le : ∀ x ∈ c.cached.toList, x.2.size ≤ limits.maxEntrySize

/-- A value that is taken in takes the place of what was cached under its key, at the end. -/
theorem cached_beforeEviction_of_stored {w : Surroundings} {value : ValueId} {size : Nat}
    {observer : Option String} (hid : (c.store w k value size observer).1 = some id) :
    (c.beforeEviction (.store w k value size observer)).cache.cached.toList
      = c.cached.toList.filter (·.1 ≠ k) ++ [(k, ⟨id, size⟩)] := by
  have hrows : (c.beforeEviction (.store w k value size observer)).cache.cached.toList
      = c.cachedAfter (.store w k value size observer) := c.cached_beforeEviction trivial trivial
  unfold cachedAfter at hrows
  dsimp only at hrows
  rw [hrows, hid]

/-- Nothing is exclusive under the key of a value that is taken in, and the rest of the pools is what it was. -/
theorem policy_beforeEviction_of_stored {w : Surroundings} {value : ValueId} {size : Nat}
    {observer : Option String} (hid : (c.store w k value size observer).1 = some id) :
    (c.beforeEviction (.store w k value size observer)).cache.policy = (c.policy.remove k).2 := by
  rw [policy_beforeEviction]
  unfold policyAfter
  dsimp only
  rw [hid]

/-- What is larger than the limits allow does not come in. -/
theorem entry_le_apply (howned : c.Owned) (hlimits : c.limits = limits)
    (h : ∀ x ∈ c.cached.toList, x.2.size ≤ limits.maxEntrySize) {op : Operation κ}
    (hoffered : op.OfferedUnder (· = limits)) :
    ∀ x ∈ (c.apply op).cache.cached.toList, x.2.size ≤ limits.maxEntrySize := by
  -- what is cached already stays as small as it was, so only a value taken in matters
  by_cases htakes : c.TakesIn op
  · cases op with
    | store w k value size observer =>
      have hstored : (c.store w k value size observer).1.isSome = true := htakes
      have hsize : size ≤ limits.maxEntrySize := by
        rw [isSome_store_iff howned, limitsAt_eq hlimits (hoffered w rfl)] at hstored
        exact hstored.1
      obtain ⟨id, hid⟩ := Option.isSome_iff_exists.1 hstored
      have happly : c.apply (.store w k value size observer)
          = (c.beforeEviction (.store w k value size observer)).evict := (c.apply_eq _).trans (if_pos rfl)
      have hevicted : Transition.Moves none (c.beforeEviction (.store w k value size observer))
          (c.beforeEviction (.store w k value size observer)).evict := Transition.moves_evict _
      intro x hx
      rw [happly] at hx
      -- the eviction leaves a part of what was cached when the value had come in
      have hmem := hevicted.cached.subset hx
      rw [cached_beforeEviction_of_stored hid] at hmem
      rcases List.mem_append.1 hmem with hold | hnew
      · exact h x (List.mem_filter.1 hold).1
      · rw [List.mem_singleton.1 hnew]
        exact hsize
    | _ => exact htakes.elim
  · exact fun x hx => h x ((c.moves_apply op htakes).cached.subset hx)

theorem KeepsTo.of_forgets (h : c.KeepsTo limits) (hforgets : c.Forgets c') : c'.KeepsTo limits where
  owned := hforgets.owned h.owned
  shares := hforgets.policy_eq ▸ h.shares
  within := h.within.of_cached_eq h.owned hforgets.cached_eq hforgets.limits_eq
    (Nat.le_of_eq (congrArg Policy.count hforgets.policy_eq))
    (Nat.le_of_eq (congrArg Policy.size hforgets.policy_eq))
  capped := by
    have hcached := hforgets.cached_eq
    refine ⟨hforgets.limits_eq.trans h.capped.limits_eq, ?_, ?_⟩
    · rw [count, hcached]
      exact h.capped.count_le
    · rw [size, hcached]
      exact h.capped.size_le
  entry_le := by
    rw [hforgets.cached_eq]
    exact h.entry_le

/-- As long as the same limits are offered, an operation leaves a cache that keeps to them. -/
theorem KeepsTo.ask {x : Asked κ} (h : x.cache.KeepsTo limits) (hready : x.Ready)
    (hoffered : x.op.OfferedUnder (· = limits)) : x.after.KeepsTo limits := by
  obtain ⟨keepers, hkept, haccepts⟩ := hready.accepted
  exact
    { owned := hready.owned_after
      shares := (x.cache.keeps_apply x.op).shares h.shares
      within := h.within.apply h.owned hkept h.shares hready.determined haccepts
      capped := h.capped.apply h.owned hkept h.shares hoffered
      entry_le := entry_le_apply h.owned h.capped.limits_eq h.entry_le hoffered }

/-! ## Putting back -/

/-- What an exclusive entry takes, the others leave of the limits. -/
structure HasPlaceFor (c : Cache κ) (limits : Limits) (size : Nat) : Prop where
  entry_le : size ≤ limits.maxEntrySize
  count_le : c.busy.length + 1 ≤ limits.maxEntries
  size_le : totalOf (fun x => x.2.size) c.busy + size ≤ limits.maxSize

theorem KeepsTo.hasPlaceFor (h : c.KeepsTo limits) {size : Nat} (hitem : (k, ⟨id, size⟩) ∈ c.policy.items) :
    c.HasPlaceFor limits size := by
  have hcount := h.owned.count_eq
  have hsize := h.owned.size_eq
  rw [List.length_nil, Policy.count_eq_length] at hcount
  rw [totalOf_nil, Policy.size_eq_totalOf] at hsize
  have hpos := List.length_pos_of_mem hitem
  have hle := le_totalOf_of_mem (fun x : κ × Sized EntryId => x.2.size) hitem
  have hmaxCount := h.capped.count_le
  have hmaxSize := h.capped.size_le
  dsimp only at hle
  exact ⟨h.entry_le _ (h.owned.cached_of_item hitem), by omega, by omega⟩

/-- What the policy has under a key, it has no more once it is removed. -/
theorem OwnedExcept.remove_found (howned : c.Owned) (hfound : (c.policy.remove k).1 = some id)
    (he : c.entries.get? id = some e) : (k, ⟨id, e.size⟩) ∈ c.policy.items ∧
      c.policy.count = (c.policy.remove k).2.count + 1 ∧
      c.policy.size = (c.policy.remove k).2.size + e.size := by
  obtain ⟨size, hitem⟩ := c.policy.mem_items_of_remove k id hfound
  obtain ⟨e', he', _, hsize, _⟩ := howned.entry_of_cached _ (howned.cached_of_item hitem)
  obtain rfl : e' = e := Option.some.inj (he'.symm.trans he)
  obtain rfl : e'.size = size := hsize
  have hperm := perm_cons_filter_key howned.nodup_item_keys hitem
  refine ⟨hitem, ?_, ?_⟩
  · rw [Policy.count_eq_length, Policy.count_eq_length, Policy.items_remove, hperm.length_eq, List.length_cons]
  · rw [Policy.size_eq_totalOf, Policy.size_eq_totalOf, Policy.items_remove, totalOf_perm _ hperm, totalOf_cons,
      Nat.add_comm]

section

variable (h : c.KeepsTo limits) (hfound : (c.reuse k).1 = some id) (he : c.entries.get? id = some e)
  (hforgets : (c.reuse k).2.cache.Forgets c') {w : Surroundings} (hw : w.offered = limits)
  (value : ValueId) (observer : Option String)

include h hfound he hforgets

/-- The same is in use when the value is put back as when it was taken out, and what it took of the limits is
free. -/
theorem KeepsTo.place_of_reuse : c.SameInUse c' ∧ c.HasPlaceFor limits e.size := by
  have hremoved : (c.policy.remove k).1 = some id := (c.reuse_fst k).symm.trans hfound
  have hreused := sameInUse_reuse h.owned k
  exact ⟨hreused.trans (hforgets.sameInUse hreused.owned),
    h.hasPlaceFor (h.owned.remove_found hremoved he).1⟩

include hw

theorem KeepsTo.accepts_back : (c'.store w k value e.size observer).1.isSome = true := by
  obtain ⟨hsame, hplace⟩ := h.place_of_reuse hfound he hforgets
  have hcount := hplace.count_le
  have hsize := hplace.size_le
  have hlimits : c'.limitsAt w = limits := limitsAt_eq (hsame.limits_eq.trans h.capped.limits_eq) hw
  have hothers := List.length_filter_le (fun x : κ × Sized EntryId => decide (x.1 ≠ k)) c.busy
  have hothersSize := totalOf_le_of_sublist (fun x : κ × Sized EntryId => x.2.size)
    (List.filter_sublist (p := fun x => decide (x.1 ≠ k)) (l := c.busy))
  rw [isSome_store_iff hsame.owned, hlimits, hsame.busy_eq]
  exact ⟨hplace.entry_le, by omega, by omega⟩

/-- The value takes as much room in use as it took in the queue. -/
theorem KeepsTo.hasRoom_back (hlearns : c.policy.knowledge? = none) :
    (c'.beforeEviction (.store w k value e.size observer)).cache.HasRoom := by
  obtain ⟨hsame, _⟩ := h.place_of_reuse hfound he hforgets
  have haccepted := h.accepts_back hfound he hforgets hw value observer
  obtain ⟨id', hid'⟩ := Option.isSome_iff_exists.1 haccepted
  have hadmits := (c'.isSome_store w k value e.size observer).symm.trans haccepted
  have hstored := store_orderly hsame.owned c'.keepsOrphans_range w k value e.size observer
  have hlimits : (c'.beforeEviction (.store w k value e.size observer)).cache.limits = c.limits :=
    limits_of_keeps (P := (· = c.limits)) (c'.keeps_beforeEviction _) hsame.limits_eq fun w' hw' => by
      rw [← Option.some.inj hw', hw, h.capped.limits_eq]
  have hpolicy : (c'.beforeEviction (.store w k value e.size observer)).cache.policy
      = ((c.policy.remove k).2.remove k).2 := by
    rw [policy_beforeEviction_of_stored hid', hforgets.policy_eq, policy_reuse h.owned]
  have hlearns' : (c'.beforeEviction (.store w k value e.size observer)).cache.policy.knowledge? = none := by
    rw [hpolicy, Policy.knowledge?_remove, Policy.knowledge?_remove]
    exact hlearns
  have hbusy : (c'.beforeEviction (.store w k value e.size observer)).cache.busy = c.busy.filter (·.1 ≠ k)
      ++ [(k, ⟨((c'.start.reload w).supersede k).cache.entries.next, e.size⟩)] := by
    rw [busy_beforeEviction_of_admits hsame.owned c'.keepsOrphans_range hadmits, hsame.busy_eq]
  -- what the queue loses is no less than what is in use besides
  obtain ⟨_, hcountEq, hsizeEq⟩ := h.owned.remove_found ((c.reuse_fst k).symm.trans hfound) he
  have hcount := (c.policy.remove k).2.count_remove_le k
  have hsize := (c.policy.remove k).2.size_remove_le k
  have hothers := List.length_filter_le (fun x : κ × Sized EntryId => decide (x.1 ≠ k)) c.busy
  have hothersSize := totalOf_le_of_sublist (fun x : κ × Sized EntryId => x.2.size)
    (List.filter_sublist (p := fun x => decide (x.1 ≠ k)) (l := c.busy))
  rw [← hpolicy] at hcount hsize
  -- the value alone is new in use, and the queue has given up as much
  refine (hasRoom_iff_withinBudget hlearns').2 (h.within.of_noMore hlimits ⟨by omega, ?_⟩ ⟨by omega, ?_⟩)
  · rw [hstored.owned.inUseCount_eq, h.owned.inUseCount_eq, hbusy, List.length_append, List.length_singleton]
    omega
  · rw [hstored.owned.inUseSize_eq, h.owned.inUseSize_eq, hbusy, totalOf_append, totalOf_cons, totalOf_nil]
    dsimp only
    omega

theorem KeepsTo.putsBack : c.PutsBack c' w k value e.size observer := by
  have haccepted := h.accepts_back hfound he hforgets hw value observer
  have howned : c'.Owned := (h.place_of_reuse hfound he hforgets).1.owned
  -- with a single queue, nothing has to be evicted for the value
  have hroom : ∀ queue, c.policy = .lru queue →
      (c'.beforeEviction (.store w k value e.size observer)).cache.HasRoom := fun queue hqueue =>
    h.hasRoom_back hfound he hforgets hw value observer (by rw [hqueue]; rfl)
  have happly : ∀ queue, c.policy = .lru queue → (c'.store w k value e.size observer).2.cache
      = (c'.beforeEviction (.store w k value e.size observer)).cache := fun queue hqueue =>
    cache_apply_of_hasRoom (hroom queue hqueue)
  obtain ⟨id', hid'⟩ := Option.isSome_iff_exists.1 haccepted
  have hnext : id' = c'.entries.next := eq_next_of_store howned c'.keepsOrphans_range hid'
  refine ⟨haccepted, fun queue hqueue => evicted_of_hasRoom trivial (hroom queue hqueue), ?_, ?_⟩
  · -- the key had left the map, so that the value comes last and nothing else moves
    intro queue hqueue
    have hrows := ((h.owned.takesOut k).leaves id hfound).cached_eq
    rw [← hforgets.cached_eq] at hrows
    rw [happly queue hqueue, cached_beforeEviction_of_stored hid', hrows, hnext, List.filter_filter]
    simp only [Bool.and_self]
  · intro queue hqueue
    rw [happly queue hqueue, policy_beforeEviction_of_stored hid', Policy.items_remove, hforgets.policy_eq,
      policy_reuse h.owned, Policy.items_remove, List.filter_filter, hqueue, Policy.items_lru]
    simp only [Bool.and_self]

end

theorem KeepsTo.putsAllBack (h : c.KeepsTo limits) : c.PutsAllBack limits :=
  fun _ _ _ _ _ value observer hfound he hforgets hw => h.putsBack hfound he hforgets hw value observer

end Cache

end RefCache
