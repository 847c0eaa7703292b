import RefCache.Proofs.Budget.Capped
import RefCache.Proofs.Chronicle.Learning
import RefCache.Proofs.CounterBalance
import RefCache.Proofs.Newest

/-!
# A single queue with room for so many entries

When the limits bound nothing but the number of entries in the queue, and all that is cached can be counted
and measured in machine words, an eviction leaves the newest entries of the queue, as many as there is room
for (`Transition.Orderly.items_evict`). Until then an operation takes rows out of the queue, puts one at its
end or brings one back there (`refreshed`).
-/

namespace RefCache

universe u

variable {κ : Type u}

/-- The limits under which nothing is bounded but the number of entries in the eviction queue. -/
def Limits.boundingQueue (maxQueueEntries : Nat) (checkInterval : Duration) : Limits :=
  { Limits.unbounded with maxQueueEntries := maxQueueEntries, checkInterval := checkInterval }

variable [Key κ]

/-- The rows, those of the key at the end. -/
def refreshed (k : κ) (rows : List (κ × Sized EntryId)) : List (κ × Sized EntryId) :=
  rows.filter (·.1 ≠ k) ++ rows.filter (·.1 = k)

theorem refreshed_of_absent {k : κ} {rows : List (κ × Sized EntryId)} (h : ∀ x ∈ rows, x.1 ≠ k) :
    refreshed k rows = rows := by
  have hothers : rows.filter (·.1 ≠ k) = rows := List.filter_eq_self.2 fun x hx => by simpa using h x hx
  have hnone : rows.filter (·.1 = k) = [] := List.filter_eq_nil_iff.2 fun x hx => by simpa using h x hx
  rw [refreshed, hothers, hnone, List.append_nil]

theorem length_refreshed (k : κ) (rows : List (κ × Sized EntryId)) :
    (refreshed k rows).length = rows.length := by
  have hsplit := (List.filter_append_perm (fun x : κ × Sized EntryId => decide (x.1 ≠ k)) rows).length_eq
  simp only [decide_not, Bool.not_not] at hsplit
  simpa [refreshed] using hsplit

namespace Policy

variable {p : Policy κ}

theorem items_enqueue_last (h : p.knowledge? = none) (id : EntryId) (e : Entry κ) :
    (p.enqueue id e).items = p.items.filter (·.1 ≠ e.key) ++ [(e.key, ⟨id, e.size⟩)] := by
  obtain ⟨queue, rfl⟩ := exists_queue h
  show (lru (queue.put id e)).items = _
  rw [items_lru, items_lru, Pool.put, SizedMap.toList_put]

/-- A single queue puts what is found at its end, and counts no use of it. -/
theorem probe_of_found (h : p.knowledge? = none) {table : EntryTable κ} {k : κ} {id : EntryId} {e : Entry κ}
    (hfound : (p.remove k).1 = some id) (he : table.get? id = some e) :
    p.probe table k = ((p.remove k).2.enqueue id e, table) := by
  obtain ⟨queue, rfl⟩ := exists_queue h
  exact probe_lru_of_found hfound he

/-- What a probe finds becomes the newest entry. -/
theorem items_probe_last (h : p.knowledge? = none) {table : EntryTable κ} (k : κ)
    (hnodup : (p.items.map Prod.fst).Nodup)
    (hrows : ∀ x ∈ p.items, ∃ e, table.get? x.2.value = some e ∧ e.key = x.1 ∧ e.size = x.2.size) :
    (p.probe table k).1.items = refreshed k p.items := by
  have hitems := p.items_remove k
  cases hfound : (p.remove k).1 with
  | none =>
    -- nothing is in the queue under the key, so nothing moves
    have habsent := (p.remove_eq_none_iff k).1 hfound
    rw [probe_of_absent hfound, hitems, refreshed_of_absent habsent]
    exact List.filter_eq_self.2 fun x hx => by simpa using habsent x hx
  | some id =>
    -- the row is taken out, and the entry, whose key and size are those of the row, is put at the end
    obtain ⟨size, hmem⟩ := p.mem_items_of_remove k id hfound
    obtain ⟨e, he, rfl, rfl⟩ := hrows _ hmem
    have hprobe := congrArg Prod.fst (probe_of_found h hfound he)
    have hknown : (p.remove e.key).2.knowledge? = none := (p.knowledge?_remove _).trans h
    have hself : (p.items.filter (·.1 ≠ e.key)).filter (·.1 ≠ e.key) = p.items.filter (·.1 ≠ e.key) := by
      simp [List.filter_filter]
    rw [hprobe, items_enqueue_last hknown, hitems, hself, refreshed, filter_key_of_mem hnodup hmem]

/-- Where the size does not matter, the newest entries stay. -/
theorem items_evict_newest (h : p.knowledge? = none) {maxCount maxSize : Nat} (hsize : p.size ≤ maxSize)
    (accesses : EntryId → Nat) :
    (p.evict accesses maxCount maxSize).2.items = p.items.rtake maxCount := by
  -- without knowledge the policy is one queue, cut to its shortest sufficient prefix
  obtain ⟨queue, rfl⟩ := exists_queue h
  obtain ⟨out, _, hshortest, _⟩ := queue.trimTo_spec accesses maxCount maxSize
  show (lru (queue.trimTo accesses maxCount maxSize).2).items = _
  rw [items_lru, items_lru]
  have hsplit := hshortest.split
  have hfits := hshortest.fits.1
  generalize (queue.trimTo accesses maxCount maxSize).2.entries.toList = rest at *
  have htotal : totalOf (fun x => x.2.size) queue.entries.toList ≤ maxSize := by
    rw [← Pool.size_eq_totalOf]
    exact hsize
  -- the newest entries would fit, so no more than the others have to go
  have hout : out.length = queue.entries.toList.length - maxCount := by
    have hsuffix : totalOf (fun x => x.2.size) (queue.entries.toList.rtake maxCount) ≤ maxSize :=
      Nat.le_trans (totalOf_le_of_sublist _ (List.drop_sublist _ _)) htotal
    have hleast := hshortest.shortest (queue.entries.toList.take (queue.entries.toList.length - maxCount))
      (queue.entries.toList.rtake maxCount) (List.take_append_drop _ _).symm
      ⟨by rw [length_rtake]; omega, hsuffix⟩
    have hlength := congrArg List.length hsplit
    rw [List.length_append] at hlength
    rw [List.length_take] at hleast
    omega
  rw [List.rtake, ← hout, hsplit, List.drop_left]

end Policy

/-! ## What is cached and who holds it -/

namespace Cache

variable {c : Cache κ} {x : κ × Sized EntryId}

theorem mem_busy : x ∈ c.busy ↔ x ∈ c.cached.toList ∧ 0 < c.entries.clients x.2.value := by
  simp [busy, idle, Nat.pos_iff_ne_zero]

/-- What a probe finds becomes the newest entry, as a request and a release would make it. -/
theorem items_policyAfter_probe (h : c.Owned) (hlearns : c.policy.knowledge? = none) (k : κ) :
    (c.policyAfter (.probe k)).items = refreshed k c.policy.items := by
  refine Policy.items_probe_last hlearns k h.nodup_item_keys fun x hx => ?_
  obtain ⟨e, he, hkey, hsize, _⟩ := h.entry_of_cached x (h.cached_of_item hx)
  exact ⟨e, he, hkey, hsize⟩

/-- A request takes what it asks for out of the queue. -/
theorem items_policyAfter_get (c : Cache κ) (s : Surroundings) (k : κ) :
    (c.policyAfter (.get s k)).items = c.policy.items.filter (·.1 ≠ k) := by
  unfold policyAfter
  dsimp only
  split
  · rw [Policy.items_onMiss, Policy.items_remove]
  · rw [Policy.items_remove]

/-- All that is cached can be counted and measured in machine words. -/
structure Countable (c : Cache κ) : Prop where
  count_le : c.count ≤ unlimited
  size_le : c.size ≤ unlimited

/-- The cache has a single queue with room for `n` entries, and no other bounds. -/
structure QueuesUpTo (n : Nat) (c : Cache κ) : Prop where
  learns_nothing : c.policy.knowledge? = none
  limits_eq : ∃ interval, c.limits = .boundingQueue n interval
  length_le : c.policy.items.length ≤ n

/-- Whether there is room for a value is decided by what is in use under other keys. -/
theorem admits_iff_room (hc : c.Owned) {n : Nat}
    (hlimits : ∃ interval, c.limits = .boundingQueue n interval) (k : κ) (size : Nat) :
    c.admits k size = true ↔ size ≤ unlimited ∧
      (c.busy.filter (·.1 ≠ k)).length < unlimited ∧
      size ≤ unlimited - totalOf (fun x => x.2.size) (c.busy.filter (·.1 ≠ k)) := by
  obtain ⟨interval, hlimits⟩ := hlimits
  rw [admits_iff_beside hc, hlimits]
  exact Iff.rfl

/-- A value that is admitted gets the next number. -/
theorem store_fst_eq (hc : c.Owned) {base : List EntryId} (hkept : c.KeepsOrphans base) (s : Surroundings)
    (k : κ) (value : ValueId) (size : Nat) (observer : Option String) :
    (c.store s k value size observer).1
      = if (c.start.reload s).cache.admits k size then some c.entries.next else none := by
  have hstored := c.store_fst_ite s k value size observer
  by_cases hadmits : (c.start.reload s).cache.admits k size = true
  · rw [if_pos hadmits] at hstored ⊢
    rw [hstored, eq_next_of_store hc hkept hstored]
  · rw [if_neg hadmits] at hstored ⊢
    exact hstored

end Cache

/-! ## One operation -/

/-- The limits that the operation may take over bound the queue in the same way, and nothing else. -/
def Operation.Offers (n : Nat) (op : Operation κ) : Prop :=
  ∀ w, op.surroundings? = some w → ∃ interval, w.offered = .boundingQueue n interval

/-- An eviction leaves the newest entries of the queue. -/
theorem Transition.Orderly.items_evict {t : Transition κ} {table : EntryTable κ} {base : List EntryId}
    (h : t.Orderly table base []) (hlearns : t.cache.policy.knowledge? = none) {n : Nat}
    (hlimits : ∃ interval, t.cache.limits = .boundingQueue n interval) (hfits : t.cache.Countable) :
    t.evict.cache.policy.items = t.cache.policy.items.rtake n := by
  obtain ⟨interval, hlimits⟩ := hlimits
  have hcount := h.owned.count_eq
  have hsize := h.owned.size_eq
  have hcountLe := hfits.count_le
  have hsizeLe := hfits.size_le
  rw [List.length_nil] at hcount
  rw [totalOf_nil] at hsize
  -- the entries in use leave room for all that the queue holds
  have hroomCount : t.cache.policy.items.length ≤ unlimited - t.cache.inUseCount := by
    rw [h.owned.inUseCount_eq, ← Policy.count_eq_length]
    omega
  have hroomSize : t.cache.policy.size ≤ min unlimited (unlimited - t.cache.inUseSize) := by
    rw [h.owned.inUseSize_eq]
    omega
  -- so the limit on the queue's length alone decides
  have hbudget : t.cache.queueBudget
      = (min n (unlimited - t.cache.inUseCount), min unlimited (unlimited - t.cache.inUseSize)) := by
    unfold Cache.queueBudget
    rw [hlimits]
    rfl
  rw [Transition.policy_evict]
  unfold Transition.evicted
  rw [hbudget, Policy.items_evict_newest hlearns hroomSize, rtake_min_of_length_le hroomCount]

namespace Asked

variable {x : Asked κ} {n : Nat}

/-- The operation is asked for in good order of a cache with a single queue with room for `n` entries. -/
structure Plain (n : Nat) (x : Asked κ) : Prop extends x.Ready where
  queues : x.cache.QueuesUpTo n
  offers : x.op.Offers n

/-- And what is cached can be counted and measured, what is taken in included. -/
structure Fitting (n : Nat) (x : Asked κ) : Prop extends x.Plain n where
  count_le : x.cache.count + x.takenIn.length ≤ unlimited
  size_le : x.cache.size + bytesOf x.takenIn ≤ unlimited

/-- Limits that an operation asks for leave the queue the same room. -/
theorem Plain.limits_reload (h : x.Plain n) {w : Surroundings} (hw : x.op.surroundings? = some w) :
    ∃ interval, (x.cache.start.reload w).cache.limits = .boundingQueue n interval := by
  unfold Transition.reload
  split
  · exact h.offers w hw
  · exact h.queues.limits_eq

/-- Until the eviction nothing more is cached than what was cached before, and what was taken in. -/
theorem Fitting.countable_before (h : x.Fitting n) : (x.cache.beforeEviction x.op).cache.Countable := by
  obtain ⟨_, hkept, _⟩ := h.accepted
  obtain ⟨_, _, haccounts⟩ := Cache.accountsFor_beforeEviction h.owned hkept h.determined
  exact ⟨Nat.le_trans haccounts.count_le h.count_le, Nat.le_trans haccounts.size_le h.size_le⟩

/-- What is in the queue after an operation: the newest of what the operation left there. -/
theorem Fitting.items_after (h : x.Fitting n) : x.after.policy.items
      = if x.op.evicts then (x.cache.policyAfter x.op).items.rtake n
        else (x.cache.policyAfter x.op).items := by
  obtain ⟨_, hbefore⟩ := h.beforeEviction
  have hlimits := Cache.limits_of_keeps (P := fun limits => ∃ interval, limits = .boundingQueue n interval)
    (x.cache.keeps_beforeEviction x.op) h.queues.limits_eq h.offers
  have hpolicy := x.cache.policy_beforeEviction x.op
  -- an operation that evicts does so at its end
  have happly := x.cache.apply_eq x.op
  rw [after, happly]
  split
  · rename_i hevicts
    -- what an operation leaves to an eviction has learned as little as what it leaves in the end
    have hlearns : (x.cache.beforeEviction x.op).cache.policy.knowledge? = none := by
      have hknown := learns_nothing_after h.queues.learns_nothing
      rw [after, happly, if_pos hevicts, Transition.policy_evict] at hknown
      unfold Transition.evicted at hknown
      rwa [Policy.knowledge?_evict] at hknown
    rw [hbefore.items_evict hlearns hlimits h.countable_before, hpolicy]
  · rw [hpolicy]

/-- What somebody holds is not evicted. -/
theorem Ready.cached_after_iff (h : x.Ready) (htrims : x.op.TrimsNothing) {y : κ × Sized EntryId}
    (hheld : 0 < x.after.entries.clients y.2.value) :
    y ∈ x.after.cached.toList ↔ y ∈ x.cache.cachedAfter x.op := by
  obtain ⟨_, hbefore⟩ := h.beforeEviction
  have hrows := x.cache.cached_beforeEviction h.determined htrims
  have hheldBefore : 0 < (x.cache.beforeEviction x.op).cache.entries.clients y.2.value := by
    rw [hbefore.marks.clients_eq, ← h.clients_after]
    exact hheld
  -- an eviction leaves what is in use as it is
  have hbusy : y ∈ x.after.busy ↔ y ∈ (x.cache.beforeEviction x.op).cache.busy := by
    rw [after, x.cache.apply_eq]
    split
    · rw [hbefore.evict_leaves.1]
    · exact Iff.rfl
  rw [Cache.mem_busy, Cache.mem_busy, hrows] at hbusy
  simpa [hheld, hheldBefore] using hbusy

/-- The queue keeps to its room. -/
theorem Fitting.queuesUpTo_after (h : x.Fitting n) : x.after.QueuesUpTo n where
  learns_nothing := learns_nothing_after h.queues.learns_nothing
  limits_eq := Cache.limits_of_keeps (P := fun limits => ∃ interval, limits = .boundingQueue n interval)
    (x.cache.keeps_apply x.op) h.queues.limits_eq h.offers
  length_le := by
    rw [h.items_after]
    split
    · rw [length_rtake]
      omega
    · -- an operation that does not evict takes nothing into the queue
      have hlearns := h.queues.learns_nothing
      have hlength := h.queues.length_le
      have hnodup := h.owned.nodup_item_keys
      have howned := h.owned
      obtain ⟨c, op⟩ := x
      cases op with
      | probe k =>
        rw [Cache.items_policyAfter_probe howned hlearns, length_refreshed]
        exact hlength
      | reuse k =>
        show (c.policy.remove k).2.items.length ≤ n
        rw [Policy.items_remove]
        exact Nat.le_trans (List.length_filter_le _ _) hlength
      | clear s =>
        show (c.policy.removeAll .always []).2.items.length ≤ n
        rw [Policy.items_removeAll_of_keyDetermined _ Predicate.keyDetermined_always [] hnodup]
        exact Nat.le_trans (List.length_filter_le _ _) hlength
      | _ => contradiction

end Asked

/-! ## Counting and measuring -/

/-- All that is cached can be counted, all that was ever written can be measured, and what is cached was
written. -/
structure Cache.Accountable (c : Cache κ) : Prop where
  count_le : c.count ≤ unlimited
  size_le : c.size ≤ c.counters.bytesWritten.number
  written_le : c.counters.bytesWritten.number ≤ unlimited

/-- The same, what the operation takes in included. -/
structure Asked.Measurable (x : Asked κ) : Prop where
  count_le : x.cache.count + x.takenIn.length ≤ unlimited
  size_le : x.cache.size ≤ x.cache.counters.bytesWritten.number
  written_le : x.after.counters.bytesWritten.number ≤ unlimited

/-- An operation that takes nothing in leaves all measurable. -/
def Operation.TakesNothingIn : Operation κ → Prop
  | .store .. => False
  | _ => True

namespace Asked

variable {x : Asked κ} {n : Nat}

theorem Ready.written_after (h : x.Ready) :
    x.after.counters.bytesWritten.number = x.cache.counters.bytesWritten.number + bytesOf x.takenIn := by
  obtain ⟨_, _, haccounts⟩ := h.accounts_for
  rw [haccounts.counters_eq, Counters.bytesWritten_recordEvictions, x.counts_counted.bytesWritten_eq,
    Tally.number_add]

theorem Plain.fitting (h : x.Plain n) (hmeasurable : x.Measurable) : x.Fitting n :=
  { h with
    count_le := hmeasurable.count_le
    size_le := by
      have hsize := hmeasurable.size_le
      have hwritten := hmeasurable.written_le
      rw [h.written_after] at hwritten
      omega }

theorem Ready.accountable_after (h : x.Ready) (hmeasurable : x.Measurable) : x.after.Accountable := by
  obtain ⟨_, _, haccounts⟩ := h.accounts_for
  have hcount := haccounts.count_le
  have hsize := haccounts.size_le
  have hwritten := h.written_after
  have hbefore := hmeasurable.count_le
  have hbeforeSize := hmeasurable.size_le
  exact ⟨by omega, by omega, hmeasurable.written_le⟩

theorem Ready.measurable (h : x.Ready) (haccountable : x.cache.Accountable)
    (hop : x.op.TakesNothingIn) : x.Measurable := by
  have hnone : x.takenIn = [] := by
    obtain ⟨c, op⟩ := x
    cases op with
    | store => exact hop.elim
    | _ => rfl
  have hwritten := h.written_after
  rw [hnone] at hwritten
  refine ⟨?_, haccountable.size_le, ?_⟩
  · rw [hnone]
    exact haccountable.count_le
  · rw [hwritten]
    exact haccountable.written_le

/-- One value more is measurable, as long as there is a number left for it. -/
theorem measurable_of_room (haccountable : x.cache.Accountable) (hroom : x.cache.count < unlimited)
    (hwritten : x.after.counters.bytesWritten.number ≤ unlimited) : x.Measurable := by
  have htaken : x.takenIn.length ≤ 1 := by
    rw [length_takenIn]
    split <;> omega
  exact ⟨by omega, haccountable.size_le, hwritten⟩

end Asked

namespace Cache

variable {c c' : Cache κ}

theorem Accountable.forget (h : c.Accountable) (hforgets : c.Forgets c') : c'.Accountable := by
  have hcount : c'.count = c.count := congrArg SizedMap.count hforgets.cached_eq
  have hsize : c'.size = c.size := congrArg SizedMap.totalSize hforgets.cached_eq
  constructor
  · rw [hcount]
    exact h.count_le
  · rw [hsize, hforgets.counters_eq]
    exact h.size_le
  · rw [hforgets.counters_eq]
    exact h.written_le

theorem QueuesUpTo.forget {n : Nat} (h : c.QueuesUpTo n) (hforgets : c.Forgets c') :
    c'.QueuesUpTo n := by
  constructor
  · rw [hforgets.policy_eq]
    exact h.learns_nothing
  · rw [hforgets.limits_eq]
    exact h.limits_eq
  · rw [hforgets.policy_eq]
    exact h.length_le

/-- What was written stays written. -/
theorem Trace.written_le {ops : List (Operation κ)} (h : c.Trace ops c') (hc : c.Owned) :
    c.counters.bytesWritten.number ≤ c'.counters.bytesWritten.number := by
  induction h with
  | start => exact Nat.le_refl _
  | @perform ops c₁ op keepers before determined kept accepts ih =>
    have hready : (⟨c₁, op⟩ : Asked κ).Ready := ⟨before.owned hc, determined, keepers, kept, accepts⟩
    have hwritten := hready.written_after
    unfold Asked.after at hwritten
    dsimp only at hwritten
    omega
  | forget _ _ ih => exact ih
  | tearDown _ _ _ ih => exact ih

end Cache

end RefCache
