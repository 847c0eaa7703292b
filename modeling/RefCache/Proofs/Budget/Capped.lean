import RefCache.Proofs.Budget.WithinBudget

/-!
# The whole cache keeps to its limits

The cache as a whole never holds more than the largest limits that it has worked under allow. Only taking in a
new value adds to it: the value was admitted because the entries in use leave room for it
(`Cache.heldUnder_spec`, `Orderly.accept_busy`), and what the policy keeps fits into the rest. As long as the same
limits are offered, the cache keeps to those.

* `Bounded.apply`, `Trace.bounded`: what bounds all limits bounds the cache, whatever becomes of it
* `Capped.apply`, `Trace.capped`: the same of constant limits
-/

namespace RefCache

universe u

variable {κ : Type u} [Key κ]

namespace Cache

/-- The limits in effect allow no more than so many entries and bytes in the whole cache, and it holds no more. -/
structure Bounded (maxEntries maxSize : Nat) (c : Cache κ) : Prop where
  maxEntries_le : c.limits.maxEntries ≤ maxEntries
  maxSize_le : c.limits.maxSize ≤ maxSize
  count_le : c.count ≤ maxEntries
  size_le : c.size ≤ maxSize

/-- The cache works under the limits `limits`, and keeps to those on the whole cache. -/
structure Capped (limits : Limits) (c : Cache κ) : Prop where
  limits_eq : c.limits = limits
  count_le : c.count ≤ limits.maxEntries
  size_le : c.size ≤ limits.maxSize

variable {c c' : Cache κ} {limits : Limits}

/-- The admission takes off what is in use under the key, and no more. -/
structure HeldUnderIs (c : Cache κ) (k : κ) (held : Nat × Nat) : Prop where
  count_eq : c.busy.length = held.1 + (c.busy.filter (·.1 ≠ k)).length
  size_eq : totalOf (fun x => x.2.size) c.busy
    = held.2 + totalOf (fun x => x.2.size) (c.busy.filter (·.1 ≠ k))

/-- When nothing is in use under the key, there is nothing to take off. -/
private theorem heldUnderIs_zero {k : κ} (hothers : ∀ x ∈ c.busy, x.1 ≠ k) :
    c.HeldUnderIs k (0, 0) := by
  have hself : c.busy.filter (·.1 ≠ k) = c.busy :=
    List.filter_eq_self.2 fun x hx => by simpa using hothers x hx
  constructor
  · rw [hself, Nat.zero_add]
  · rw [hself, Nat.zero_add]

/-- An entry in use under the key is the only one there. -/
private theorem heldUnderIs_one {k : κ} {id : EntryId} {size : Nat}
    (hbusy : (k, ⟨id, size⟩) ∈ c.busy) : c.HeldUnderIs k (1, size) := by
  have hnodup : (c.busy.map Prod.fst).Nodup :=
    c.cached.nodup_keys.sublist (List.filter_sublist.map _)
  have hperm := perm_cons_filter_key hnodup hbusy
  constructor
  · rw [hperm.length_eq, List.length_cons, Nat.add_comm]
  · rw [totalOf_perm _ hperm, totalOf_cons]

/-- A key that the policy has is not in use. -/
private theorem not_busy_of_contains (h : c.Owned) {k : κ} (hcontains : c.policy.contains k = true) :
    ∀ x ∈ c.busy, x.1 ≠ k := by
  intro x hx hxk
  obtain ⟨y, hy, hkey⟩ := (c.policy.contains_iff_mem_items k).1 hcontains
  obtain ⟨hmem, hzero⟩ := h.mem_idle (List.mem_append_right _ hy)
  obtain ⟨hxmem, hbusy⟩ := List.mem_filter.1 hx
  have hx' : (y.1, x.2) ∈ c.cached.toList := by
    rw [hkey, ← hxk]
    exact hxmem
  rw [idle, c.cached.eq_of_mem_toList hx' hmem, hzero] at hbusy
  simp at hbusy

theorem heldUnder_spec (h : c.Owned) (k : κ) : c.HeldUnderIs k (c.heldUnder k) := by
  unfold heldUnder
  cases hcontains : c.policy.contains k with
  | true => exact heldUnderIs_zero (not_busy_of_contains h hcontains)
  | false =>
    cases hget : c.cached.get? k with
    | none =>
      rw [SizedMap.get?_eq_none_iff, SizedMap.keys_eq] at hget
      refine heldUnderIs_zero fun x hx hxk => hget ?_
      exact hxk ▸ List.mem_map_of_mem (List.mem_filter.1 hx).1
    | some id =>
      obtain ⟨size, hmem⟩ := (c.cached.get?_eq_some_iff k id).1 hget
      obtain ⟨e, he, _, hsize, _⟩ := h.entry_of_cached _ hmem
      have hentry : c.entries.size id = size := by
        rw [EntryTable.size, he]
        exact hsize
      -- the row is not idle, or the policy would have the key
      have hbusy : (k, ⟨id, size⟩) ∈ c.busy := by
        refine List.mem_filter.2 ⟨hmem, ?_⟩
        cases hidle : c.idle (k, ⟨id, size⟩) with
        | false => rfl
        | true =>
          have hitem := h.idle_perm.mem_iff.1 (List.mem_filter.2 ⟨hmem, hidle⟩)
          rw [(c.policy.contains_iff_mem_items k).2 ⟨_, hitem, rfl⟩] at hcontains
          exact nomatch hcontains
      dsimp only
      rw [hentry]
      exact heldUnderIs_one hbusy

end Cache

namespace Transition.Orderly

variable {t : Transition κ} {table : EntryTable κ} {base : List EntryId}

/-- Nothing is in use under a superseded key, and the rest is in use as before. -/
theorem supersede_busy (h : t.Orderly table base []) (k : κ) :
    (t.supersede k).cache.busy = t.cache.busy.filter (·.1 ≠ k) := by
  have hclients : ∀ id, (t.supersede k).cache.entries.clients id = t.cache.entries.clients id :=
    fun id => ((h.supersede k).marks.clients_eq id).trans (h.marks.clients_eq id).symm
  rw [Cache.busy, Cache.busy, cached_supersede, List.filter_filter, List.filter_filter]
  refine List.filter_congr fun x _ => ?_
  rw [Cache.idle, Cache.idle, hclients, Bool.and_comm]

/-- A new entry is in use. -/
theorem accept_busy (h : t.Orderly table base []) {k : κ}
    (hnew : ∀ x ∈ t.cache.cached.toList, x.1 ≠ k) (value : ValueId) (size : Nat)
    (observer : Option String) :
    (t.accept k value size observer).2.cache.busy
      = t.cache.busy ++ [(k, ⟨t.cache.entries.next, size⟩)] := by
  let e : Entry κ :=
    { key := k, value := value, size := size, observer := observer,
      accesses := t.cache.policy.initialAccesses k }
  have hcached : (t.accept k value size observer).2.cache.cached.toList
      = t.cache.cached.toList ++ [(k, ⟨t.cache.entries.next, size⟩)] :=
    t.cache.cached.toList_put_of_new hnew t.cache.entries.next size
  have hadded : Register.get? (t.cache.entries.add e) t.cache.entries.next = some e := by
    rw [Register.get?_add, if_pos rfl]
  -- the new entry is handed out at once, the others keep their clients
  have hclients : ∀ id, (t.accept k value size observer).2.cache.entries.clients id
      = if t.cache.entries.next = id then 1 else t.cache.entries.clients id := by
    intro id
    show Register.readout (Register.update (t.cache.entries.add e) t.cache.entries.next
      fun e => e.addClient.recordAccess) Entry.clients id = _
    rw [Register.readout_update _ hadded, Register.readout_add]
    split <;> rfl
  have hold : t.cache.cached.toList.filter
        (fun x => !(t.accept k value size observer).2.cache.idle x) = t.cache.busy := by
    refine List.filter_congr fun x hx => ?_
    obtain ⟨e', he', _⟩ := h.owned.entry_of_cached x hx
    have hlt := t.cache.entries.lt_next_of_get? he'
    rw [Cache.idle, Cache.idle, hclients, if_neg (by omega)]
  rw [Cache.busy, hcached, List.filter_append, hold, List.filter_cons_of_pos, List.filter_nil]
  rw [Cache.idle, hclients, if_pos rfl]
  rfl

end Transition.Orderly

namespace Cache

variable {c c' : Cache κ} {limits : Limits} {base : List EntryId} {ops : List (Operation κ)}
  {maxEntries maxSize : Nat}

/-! ## Taking in a value -/

theorem admits_iff (c : Cache κ) (k : κ) (size : Nat) : c.admits k size = true ↔
    size ≤ c.limits.maxEntrySize ∧ wordSub c.inUseCount (c.heldUnder k).1 < c.limits.maxEntries ∧
      size ≤ c.limits.maxSize - wordSub c.inUseSize (c.heldUnder k).2 := by
  unfold admits
  simp only [Bool.and_eq_true, decide_eq_true_eq, and_assoc]

/-- Whether there is room for a value is decided by what is in use under other keys. -/
theorem admits_iff_beside (howned : c.Owned) (k : κ) (size : Nat) : c.admits k size = true ↔
    size ≤ c.limits.maxEntrySize ∧ (c.busy.filter (·.1 ≠ k)).length < c.limits.maxEntries ∧
      size ≤ c.limits.maxSize - totalOf (fun x => x.2.size) (c.busy.filter (·.1 ≠ k)) := by
  obtain ⟨hcount, hsize⟩ := heldUnder_spec howned k
  -- what is held under the key is part of what is in use
  have hothers : wordSub c.inUseCount (c.heldUnder k).1 = (c.busy.filter (·.1 ≠ k)).length := by
    rw [howned.inUseCount_eq, hcount, wordSub_of_le (Nat.le_add_right _ _), Nat.add_sub_cancel_left]
  have hothersSize : wordSub c.inUseSize (c.heldUnder k).2
      = totalOf (fun x => x.2.size) (c.busy.filter (·.1 ≠ k)) := by
    rw [howned.inUseSize_eq, hsize, wordSub_of_le (Nat.le_add_right _ _), Nat.add_sub_cancel_left]
  rw [admits_iff, hothers, hothersSize]

/-- A value that is admitted fits in with what is in use beside it. Where the latter exceeds the limits, a value
without bytes is admitted all the same, and does not add to it. -/
theorem Bounded.fits_of_admits (h : c.Bounded maxEntries maxSize) (howned : c.Owned) {k : κ} {size : Nat}
    (hadmits : c.admits k size = true) :
    (c.busy.filter (·.1 ≠ k)).length + 1 ≤ maxEntries ∧
      totalOf (fun x => x.2.size) (c.busy.filter (·.1 ≠ k)) + size ≤ maxSize := by
  obtain ⟨_, hcount, hroom⟩ := (admits_iff_beside howned k size).1 hadmits
  have hheldSize := (heldUnder_spec howned k).size_eq
  have hsizeEq := howned.size_eq
  have hentries := h.maxEntries_le
  have hbytes := h.maxSize_le
  have hsize := h.size_le
  omega

/-- When a value has come in, it is in use beside what was in use under other keys. -/
theorem busy_beforeEviction_of_admits (howned : c.Owned) (hkept : c.KeepsOrphans base) {s : Surroundings}
    {k : κ} {value : ValueId} {size : Nat} {observer : Option String}
    (hadmits : (c.start.reload s).cache.admits k size = true) :
    (c.beforeEviction (.store s k value size observer)).cache.busy = c.busy.filter (·.1 ≠ k)
      ++ [(k, ⟨((c.start.reload s).supersede k).cache.entries.next, size⟩)] := by
  have hreload := (start_orderly howned hkept).reload s
  have hsame : (c.start.reload s).cache.busy = c.busy := c.start.busy_reload s
  have hbefore : c.beforeEviction (.store s k value size observer)
      = (((c.start.reload s).supersede k).accept k value size observer).2 := by
    unfold beforeEviction
    exact if_pos hadmits
  rw [hbefore, (hreload.supersede k).accept_busy (Transition.not_cached_supersede _ k), hreload.supersede_busy,
    hsame]

/-! ## Limits that are bounded -/

theorem Bounded.reload (h : c.Bounded maxEntries maxSize) {s : Surroundings}
    (hentries : s.offered.maxEntries ≤ maxEntries) (hbytes : s.offered.maxSize ≤ maxSize) :
    (c.start.reload s).cache.Bounded maxEntries maxSize := by
  unfold Transition.reload
  split
  · exact ⟨hentries, hbytes, h.count_le, h.size_le⟩
  · exact h

/-- When a value is admitted within a bound, the entries in use are within it once the value has come in. -/
theorem busy_le_of_admits (howned : c.Owned) (hkept : c.KeepsOrphans base)
    {s : Surroundings} {k : κ} {value : ValueId} {size : Nat} {observer : Option String}
    (hreload : (c.start.reload s).cache.Bounded maxEntries maxSize)
    (hadmits : (c.start.reload s).cache.admits k size = true) :
    (c.beforeEviction (.store s k value size observer)).cache.busy.length ≤ maxEntries ∧
      totalOf (fun x => x.2.size) (c.beforeEviction (.store s k value size observer)).cache.busy ≤ maxSize := by
  obtain ⟨hfitsCount, hfitsSize⟩ :=
    hreload.fits_of_admits ((start_orderly howned hkept).reload s).owned hadmits
  rw [c.start.busy_reload s] at hfitsCount hfitsSize
  -- in use are then the new entry and what was in use under other keys
  rw [busy_beforeEviction_of_admits howned hkept hadmits]
  constructor
  · rw [List.length_append, List.length_singleton]
    exact hfitsCount
  · rw [totalOf_append, totalOf_cons, totalOf_nil, Nat.add_zero]
    exact hfitsSize

/-- An operation that caches nothing new caches no more than before. -/
theorem Bounded.of_not_takesIn (h : c.Bounded maxEntries maxSize) {op : Operation κ} (hop : ¬ c.TakesIn op)
    (hentries : (c.apply op).cache.limits.maxEntries ≤ maxEntries)
    (hbytes : (c.apply op).cache.limits.maxSize ≤ maxSize) :
    (c.apply op).cache.Bounded maxEntries maxSize := by
  have hsub := (c.moves_apply op hop).cached
  refine ⟨hentries, hbytes, Nat.le_trans ?_ h.count_le, Nat.le_trans ?_ h.size_le⟩
  · rw [count, count, ← SizedMap.length_toList, ← SizedMap.length_toList]
    exact hsub.length_le
  · rw [size, size, SizedMap.totalSize_eq_totalOf, SizedMap.totalSize_eq_totalOf]
    exact totalOf_le_of_sublist _ hsub

/-- When the entries in use are within a bound on the limits and the policy is within its budget, the cache is
within the bound. -/
theorem bounded_of_busy_le (howned : c.Owned) (hbudget : c.WithinBudget)
    (hentries : c.limits.maxEntries ≤ maxEntries) (hbytes : c.limits.maxSize ≤ maxSize)
    (hcount : c.busy.length ≤ maxEntries) (hsize : totalOf (fun x => x.2.size) c.busy ≤ maxSize) :
    c.Bounded maxEntries maxSize := by
  -- the policy fits into what the entries in use leave
  have hpolicyCount : c.policy.count ≤ c.limits.maxEntries - c.inUseCount :=
    Nat.le_trans hbudget.count_le (Nat.min_le_right _ _)
  have hpolicySize : c.policy.size ≤ c.limits.maxSize - c.inUseSize :=
    Nat.le_trans hbudget.size_le (Nat.min_le_right _ _)
  have hcountEq := howned.count_eq
  have hsizeEq := howned.size_eq
  rw [List.length_nil] at hcountEq
  rw [totalOf_nil] at hsizeEq
  rw [howned.inUseCount_eq] at hpolicyCount
  rw [howned.inUseSize_eq] at hpolicySize
  exact ⟨hentries, hbytes, by omega, by omega⟩

/-- Taking in a value that was admitted keeps the cache within the bound. -/
theorem bounded_store (howned : c.Owned) (hkept : c.KeepsOrphans base) (hshares : c.policy.SharesFit)
    {s : Surroundings} {k : κ} {value : ValueId} {size : Nat} {observer : Option String}
    (htakes : c.TakesIn (.store s k value size observer))
    (hreload : (c.start.reload s).cache.Bounded maxEntries maxSize)
    (hentries : (c.apply (.store s k value size observer)).cache.limits.maxEntries ≤ maxEntries)
    (hbytes : (c.apply (.store s k value size observer)).cache.limits.maxSize ≤ maxSize) :
    (c.apply (.store s k value size observer)).cache.Bounded maxEntries maxSize := by
  -- a value that is taken in was admitted under the limits in effect
  have hadmits : (c.start.reload s).cache.admits k size = true :=
    (c.isSome_store s k value size observer).symm.trans htakes
  have hbefore := store_orderly howned hkept s k value size observer
  have hkeeps := c.keeps_beforeEviction (.store s k value size observer)
  -- the eviction leaves what is in use alone
  obtain ⟨hcount, hsize⟩ := busy_le_of_admits howned hkept hreload hadmits
  obtain ⟨hbusy, _⟩ := hbefore.evict_leaves
  rw [← hbusy] at hcount hsize
  have happly : c.apply (.store s k value size observer)
      = (c.beforeEviction (.store s k value size observer)).evict := (c.apply_eq _).trans (if_pos rfl)
  rw [happly] at hentries hbytes ⊢
  exact bounded_of_busy_le hbefore.evict.owned (hbefore.evict_withinBudget (hkeeps.shares hshares))
    hentries hbytes hcount hsize

/-- Every operation keeps the cache within a bound on the limits in effect and those offered. -/
theorem Bounded.apply (h : c.Bounded maxEntries maxSize) (howned : c.Owned) (hkept : c.KeepsOrphans base)
    (hshares : c.policy.SharesFit) {op : Operation κ}
    (hoffered : ∀ w, op.surroundings? = some w →
      w.offered.maxEntries ≤ maxEntries ∧ w.offered.maxSize ≤ maxSize) :
    (c.apply op).cache.Bounded maxEntries maxSize := by
  obtain ⟨hentries, hbytes⟩ := limits_of_keeps
    (P := fun limits => limits.maxEntries ≤ maxEntries ∧ limits.maxSize ≤ maxSize) (c.keeps_apply op)
    ⟨h.maxEntries_le, h.maxSize_le⟩ hoffered
  -- only taking in a new value can add to what is cached
  by_cases htakes : c.TakesIn op
  · cases op with
    | store s k value size observer =>
      obtain ⟨hentriesOffered, hbytesOffered⟩ := hoffered s rfl
      exact bounded_store howned hkept hshares htakes (h.reload hentriesOffered hbytesOffered) hentries hbytes
    | _ => exact nomatch htakes
  · exact h.of_not_takesIn htakes hentries hbytes

/-- Whatever becomes of a cache, it is within a bound on all limits that it has worked under. -/
theorem Trace.bounded (htrace : c.Trace ops c') (howned : c.Owned) (hshares : c.policy.SharesFit)
    (h : c.Bounded maxEntries maxSize)
    (hoffered : ∀ op ∈ ops, ∀ w, op.surroundings? = some w →
      w.offered.maxEntries ≤ maxEntries ∧ w.offered.maxSize ≤ maxSize) :
    c'.Bounded maxEntries maxSize := by
  -- along the trace, each operation keeping to the bounds it meets
  induction htrace with
  | start => exact h
  | perform before _ kept _ ih =>
    have hbounded := ih fun op hop => hoffered op (List.mem_append_left _ hop)
    exact hbounded.apply (before.owned howned) kept (before.sharesFit hshares)
      (hoffered _ (List.mem_append_right _ (List.mem_singleton_self _)))
  | forget _ _ ih =>
    have hbounded := ih hoffered
    exact ⟨hbounded.maxEntries_le, hbounded.maxSize_le, hbounded.count_le, hbounded.size_le⟩
  | tearDown _ _ _ ih =>
    have hbounded := ih hoffered
    exact ⟨hbounded.maxEntries_le, hbounded.maxSize_le, Nat.zero_le _, Nat.zero_le _⟩

/-! ## Constant limits -/

theorem Capped.bounded (h : c.Capped limits) : c.Bounded limits.maxEntries limits.maxSize where
  maxEntries_le := Nat.le_of_eq (congrArg Limits.maxEntries h.limits_eq)
  maxSize_le := Nat.le_of_eq (congrArg Limits.maxSize h.limits_eq)
  count_le := h.count_le
  size_le := h.size_le

/-- Every operation keeps the cache within constant limits. -/
theorem Capped.apply (h : c.Capped limits) (howned : c.Owned) (hkept : c.KeepsOrphans base)
    (hshares : c.policy.SharesFit) {op : Operation κ}
    (hoffered : ∀ w, op.surroundings? = some w → w.offered = limits) :
    (c.apply op).cache.Capped limits := by
  have hlimits : ∀ w, op.surroundings? = some w →
      w.offered.maxEntries ≤ limits.maxEntries ∧ w.offered.maxSize ≤ limits.maxSize := by
    intro w hw
    rw [hoffered w hw]
    exact ⟨Nat.le_refl _, Nat.le_refl _⟩
  have hbounded := h.bounded.apply howned hkept hshares hlimits
  exact ⟨limits_of_keeps (P := (· = limits)) (c.keeps_apply op) h.limits_eq hoffered, hbounded.count_le,
    hbounded.size_le⟩

/-- Whatever becomes of a cache under constant limits, it keeps to them. -/
theorem Trace.capped (htrace : c.Trace ops c') (howned : c.Owned) (hshares : c.policy.SharesFit)
    (h : c.Capped limits)
    (hoffered : ∀ op ∈ ops, ∀ w, op.surroundings? = some w → w.offered = limits) :
    c'.Capped limits := by
  induction htrace with
  | start => exact h
  | perform before _ kept _ ih =>
    have hcapped := ih fun op hop => hoffered op (List.mem_append_left _ hop)
    exact hcapped.apply (before.owned howned) kept (before.sharesFit hshares)
      (hoffered _ (List.mem_append_right _ (List.mem_singleton_self _)))
  | forget _ _ ih =>
    have hcapped := ih hoffered
    exact ⟨hcapped.limits_eq, hcapped.count_le, hcapped.size_le⟩
  | tearDown _ _ _ ih => exact ⟨(ih hoffered).limits_eq, Nat.zero_le _, Nat.zero_le _⟩

end Cache

end RefCache
