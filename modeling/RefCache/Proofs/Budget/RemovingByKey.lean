import RefCache.Proofs.Budget.TakingOut

/-!
# What a removal by keys takes out

A predicate that looks at keys alone takes out exactly what is cached under the keys that it accepts
(`Cache.IsRidOf`), exclusive or in use. With the entries in use among them, the policy gets more room, and each
of its pools has more of it, though the shares are parts of a budget that has changed. So where every pool has
room to begin with, the eviction at the end of a removal finds nothing to evict (`Cache.RemovesByKey`).
-/

namespace RefCache

universe u

variable {κ : Type u} [Key κ]

namespace Policy

/-- What a predicate takes out of the pools leaves all else where it is, and the ghosts. -/
theorem pools_removeAll_of_keyDetermined (p : Policy κ) {pred : Predicate κ} (hpred : pred.KeyDetermined)
    (asked : List κ) : (p.removeAll pred asked).2.pools.map (fun q => (q.entries.toList, q.ghosts))
      = p.pools.map fun q => (q.entries.toList.filter fun x => !pred.answer [] x.1, q.ghosts) := by
  have hpool : ∀ (q : Pool κ) asked,
      ((q.removeAll pred asked).2.entries.toList, (q.removeAll pred asked).2.ghosts)
      = (q.entries.toList.filter fun x => !pred.answer [] x.1, q.ghosts) :=
    fun q asked => Prod.ext (q.entries.removeAll_of_keyDetermined hpred asked).2 rfl
  cases p with
  | lru queue => exact congrArg ([·]) (hpool queue asked)
  | adaptive a =>
    simp only [pools, removeAll, Adaptive.removeAll, List.map_cons, List.map_nil, hpool]

theorem fraction?_removeAll (p : Policy κ) (pred : Predicate κ) (asked : List κ) :
    (p.removeAll pred asked).2.fraction? = p.fraction? := by
  cases p <;> rfl

/-- What a predicate that looks at keys alone takes out of the pools. -/
theorem removeAll_fst_of_keyDetermined (p : Policy κ) {pred : Predicate κ} (hpred : pred.KeyDetermined)
    (asked : List κ) :
    (p.removeAll pred asked).1 = (p.items.filter fun x => pred.answer [] x.1).map (·.2.value) := by
  rw [removeAll_fst, chosen, hpred.choose_eq_filter, List.filter_map, List.map_map]
  rfl

end Policy

namespace Cache

/-- The second cache is the first one without what is cached under the keys that are `gone`, and the same
otherwise. -/
structure IsRidOf (c : Cache κ) (gone : κ → Bool) (c' : Cache κ) : Prop where
  /-- All other entries are cached as before, in the same order. -/
  cached_eq : c'.cached.toList = c.cached.toList.filter fun x => !gone x.1
  /-- All others are in their places in the pools, and all ghosts are. -/
  pools_eq : c'.policy.pools.map (fun q => (q.entries.toList, q.ghosts))
    = c.policy.pools.map fun q => (q.entries.toList.filter fun x => !gone x.1, q.ghosts)
  fraction_eq : c'.policy.fraction? = c.policy.fraction?
  /-- What has left is marked, and nothing else has changed about any entry. -/
  entries_eq : ∀ id, c'.entries.get? id
    = (c.entries.get? id).map fun e => if gone e.key then e.markOrphan else e
  limits_eq : c'.limits = c.limits
  lastCheck_eq : c'.lastCheck = c.lastCheck
  counters_eq : c'.counters = c.counters

/-- What a removal does where every pool has room. -/
structure RemovesByKey (c : Cache κ) (w : Surroundings) (p : Predicate κ) : Prop where
  /-- It reports how many of the cached keys the predicate accepts, -/
  reported_eq : (c.removeAll w p).1 = c.cached.keys.countP (p.answer [])
  /-- which are keys of exclusive entries and of entries in use. -/
  sums_up : (c.removeAll w p).1
    = (c.policy.items.countP fun x => p.answer [] x.1) + c.busy.countP fun x => p.answer [] x.1
  rid : c.IsRidOf (p.answer []) (c.removeAll w p).2.2.cache
  not_cached : ∀ k, p.answer [] k = true → (c.removeAll w p).2.2.cache.contains k = false
  not_exclusive : ∀ k, p.answer [] k = true → (c.removeAll w p).2.2.cache.policy.contains k = false
  /-- The observers of the exclusive ones are to be told, once each. -/
  notices_eq : (c.removeAll w p).2.2.notices
    = (c.policy.items.filter fun x => p.answer [] x.1).map fun x => ⟨x.2.value, false⟩
  evicts_none : (⟨c, .removeAll w p⟩ : Asked κ).evicted = []

variable {c c' : Cache κ} {gone : κ → Bool} {p : Predicate κ} {w : Surroundings} {k : κ}

/-! ## Cached entries -/

/-- An entry is cached under the key that it has. -/
theorem OwnedExcept.key_of_cached {x : κ × Sized EntryId} {e : Entry κ} (howned : c.Owned)
    (hx : x ∈ c.cached.toList) (he : c.entries.get? x.2.value = some e) : e.key = x.1 := by
  obtain ⟨e', he', hkey, _⟩ := howned.entry_of_cached x hx
  obtain rfl := Option.some.inj (he.symm.trans he')
  exact hkey

/-- What is cached and held by nobody is exclusive. -/
theorem OwnedExcept.exclusive_of_unheld {x : κ × Sized EntryId} (howned : c.Owned) (hx : x ∈ c.cached.toList)
    (hunheld : c.entries.clients x.2.value = 0) : x.2.value ∈ c.policy.ids := by
  rw [Policy.ids_eq_map_items]
  exact List.mem_map_of_mem (howned.idle_perm.mem_iff.1 (List.mem_filter.2 ⟨hx, decide_eq_true hunheld⟩))

/-! ## Without some keys -/

namespace IsRidOf

theorem clients_eq (h : c.IsRidOf gone c') (id : EntryId) : c'.entries.clients id = c.entries.clients id := by
  rw [EntryTable.clients, EntryTable.clients, Register.readout, Register.readout, h.entries_eq, Option.map_map]
  congr 2
  funext e
  show (if gone e.key then e.markOrphan else e).clients = e.clients
  split <;> rfl

theorem busy_eq (h : c.IsRidOf gone c') : c'.busy = c.busy.filter fun x => !gone x.1 := by
  rw [busy, busy, h.cached_eq, List.filter_filter, List.filter_filter]
  refine List.filter_congr fun x _ => ?_
  rw [idle, idle, h.clients_eq, Bool.and_comm]

/-- The policy has at least the room that it had. -/
theorem queueBudget_le (h : c.IsRidOf gone c') (howned : c.Owned) (howned' : c'.Owned) :
    c.queueBudget.1 ≤ c'.queueBudget.1 ∧ c.queueBudget.2 ≤ c'.queueBudget.2 := by
  have hbusy : c'.busy.Sublist c.busy := h.busy_eq ▸ List.filter_sublist
  have hcount : c'.inUseCount ≤ c.inUseCount := by
    rw [howned.inUseCount_eq, howned'.inUseCount_eq]
    exact hbusy.length_le
  have hsize : c'.inUseSize ≤ c.inUseSize := by
    rw [howned.inUseSize_eq, howned'.inUseSize_eq]
    exact totalOf_le_of_sublist _ hbusy
  -- each part of the budget is what the limits leave beside the entries in use
  unfold queueBudget
  rw [h.limits_eq]
  exact ⟨by omega, by omega⟩

theorem not_cached (h : c.IsRidOf gone c') (hk : gone k = true) : c'.contains k = false := by
  rw [contains, ← Bool.not_eq_true, SizedMap.contains_iff_mem_keys, SizedMap.keys_eq, h.cached_eq]
  intro hmem
  obtain ⟨x, hx, rfl⟩ := List.mem_map.1 hmem
  simpa [hk] using (List.mem_filter.1 hx).2

/-- What is in no map of cached entries is in no pool. -/
theorem not_exclusive (h : c.IsRidOf gone c') (howned' : c'.Owned) (hk : gone k = true) :
    c'.policy.contains k = false := by
  rw [← Bool.not_eq_true, Policy.contains_iff_mem_items]
  rintro ⟨x, hx, rfl⟩
  have hmem := howned'.cached_of_item hx
  rw [h.cached_eq] at hmem
  simpa [hk] using (List.mem_filter.1 hmem).2

end IsRidOf

/-! ## Removing -/

/-- What the walks of such a predicate leave. -/
theorem OwnedExcept.isRidOf (howned : c.Owned) (hp : p.KeyDetermined) :
    c.IsRidOf (p.answer []) (c.start.removeMatching p).2.2.cache := by
  have hremoved := c.cached.removeAll_of_keyDetermined hp (c.policy.askedAfter [])
  rw [Transition.cache_removeMatching]
  refine ⟨hremoved.2, c.policy.pools_removeAll_of_keyDetermined hp [], c.policy.fraction?_removeAll p [],
    fun id => ?_, rfl, rfl, rfl⟩
  let ids := (c.cached.removeAll p (c.policy.askedAfter [])).1.map Prod.snd
  -- the walk over the map marks the entries that are cached under the keys chosen
  have hids : id ∈ ids ↔ ∃ x ∈ c.cached.toList, p.answer [] x.1 = true ∧ x.2.value = id := by
    show id ∈ (c.cached.removeAll p (c.policy.askedAfter [])).1.map Prod.snd ↔ _
    rw [hremoved.1, SizedMap.pairs, List.filter_map, List.map_map, List.mem_map]
    simp only [List.mem_filter, Function.comp_apply, and_assoc]
  refine (EntryTable.get?_foldl_markOrphan c.entries ids id).trans ?_
  cases he : c.entries.get? id with
  | none => simp
  | some e =>
    by_cases hmem : id ∈ ids
    · -- the entry is cached under its own key
      obtain ⟨x, hx, hanswer, rfl⟩ := hids.1 hmem
      rw [if_pos hmem, Option.map_some, Option.map_some, howned.key_of_cached hx he, if_pos hanswer]
    · rw [if_neg hmem, Option.map_some]
      split
      · -- what is accepted without being cached is an orphan already
        rename_i hanswer
        cases horphan : e.orphan with
        | false => exact absurd (hids.2 ⟨_, howned.cached_of_entry id e he horphan, hanswer, rfl⟩) hmem
        | true => rw [Entry.markOrphan, ← horphan]
      · rfl

theorem reported_removeAll (hp : p.KeyDetermined) (c : Cache κ) (w : Surroundings) :
    (c.removeAll w p).1 = c.cached.keys.countP (p.answer []) := by
  show (c.cached.removeAll p (c.policy.askedAfter [])).1.length = _
  rw [(c.cached.removeAll_of_keyDetermined hp _).1, ← List.countP_eq_length_filter, SizedMap.pairs,
    SizedMap.keys_eq, List.countP_map, List.countP_map]
  rfl

/-- Exclusive entries and entries in use add up to what is cached. -/
theorem OwnedExcept.countP_keys (howned : c.Owned) (test : κ → Bool) : c.cached.keys.countP test
    = (c.policy.items.countP fun x => test x.1) + c.busy.countP fun x => test x.1 := by
  rw [SizedMap.keys_eq, List.countP_map, howned.cached_perm.countP_eq, List.countP_append, List.nil_append,
    Nat.add_comm]
  rfl

section

variable (howned : c.Owned) (hp : p.KeyDetermined) (hdue : c.reloadDue w.now = false)

include howned hp

theorem OwnedExcept.owned_removeMatching : (c.start.removeMatching p).2.2.cache.Owned :=
  ((start_orderly howned c.keepsOrphans_range).removeMatching hp).owned

include hdue

theorem OwnedExcept.beforeEviction_removeAll :
    c.beforeEviction (.removeAll w p) = (c.start.removeMatching p).2.2 := by
  have hrid := howned.isRidOf hp
  refine Transition.reload_of_not_due ?_
  unfold reloadDue at hdue ⊢
  rw [hrid.limits_eq, hrid.lastCheck_eq]
  exact hdue

/-- Where every pool has room, it still has when the predicate has been put to all entries. -/
theorem HasRoom.removeAll (hroom : c.HasRoom) (hshares : c.policy.SharesFit) :
    (c.beforeEviction (.removeAll w p)).cache.HasRoom := by
  obtain ⟨hcount, hsize⟩ := (howned.isRidOf hp).queueBudget_le howned (howned.owned_removeMatching hp)
  rw [howned.beforeEviction_removeAll hp hdue]
  unfold HasRoom
  have hpolicy : (c.start.removeMatching p).2.2.cache.policy = (c.policy.removeAll p []).2 := by
    rw [Transition.cache_removeMatching]
    rfl
  rw [hpolicy]
  exact (Policy.HasRoom.removeAll hroom p []).of_le (hshares.removeAll p []) hcount hsize

theorem OwnedExcept.removesByKey (hshares : c.policy.SharesFit) (hroom : c.HasRoom) : c.RemovesByKey w p := by
  -- a removal makes room and takes none, so the eviction at its end has nothing to do
  have hstill := hroom.removeAll howned hp hdue hshares
  have hcache : (c.removeAll w p).2.2.cache = (c.start.removeMatching p).2.2.cache := by
    rw [← howned.beforeEviction_removeAll hp hdue]
    exact cache_apply_of_hasRoom hstill
  have hrid : c.IsRidOf (p.answer []) (c.removeAll w p).2.2.cache := hcache ▸ howned.isRidOf hp
  have howned' : (c.removeAll w p).2.2.cache.Owned := hcache ▸ howned.owned_removeMatching hp
  have hreported := reported_removeAll hp c w
  refine ⟨hreported, hreported.trans (howned.countP_keys _), hrid, fun _ hk => hrid.not_cached hk,
    fun _ hk => hrid.not_exclusive howned' hk, ?_, evicted_of_hasRoom trivial hstill⟩
  calc (c.removeAll w p).2.2.notices
      = (c.start.removeMatching p).2.2.notices := by
        rw [← howned.beforeEviction_removeAll hp hdue]
        exact notices_apply_of_hasRoom hstill
    _ = (c.policy.removeAll p []).1.map (⟨·, false⟩) := c.start.notices_removeMatching p
    _ = (c.policy.items.filter fun x => p.answer [] x.1).map fun x => ⟨x.2.value, false⟩ := by
        rw [c.policy.removeAll_fst_of_keyDetermined hp, List.map_map]
        rfl

end

/-! ## What a removal means to its entries -/

namespace RemovesByKey

variable {x : κ × Sized EntryId} {e : Entry κ}

/-- What is taken out was there, and is an orphan now. -/
theorem get?_of_accepted (h : c.RemovesByKey w p) (howned : c.Owned) (hx : x ∈ c.cached.toList)
    (haccepted : p.answer [] x.1 = true) (he : c.entries.get? x.2.value = some e) :
    (c.removeAll w p).2.2.cache.entries.get? x.2.value = some e.markOrphan := by
  rw [h.rid.entries_eq, he, Option.map_some, howned.key_of_cached hx he, if_pos haccepted]

/-- An exclusive entry that is taken out is reported once, and one in use is not. -/
theorem flagsOf_notices (h : c.RemovesByKey w p) (howned : c.Owned) (hx : x ∈ c.cached.toList)
    (haccepted : p.answer [] x.1 = true) : flagsOf x.2.value (c.removeAll w p).2.2.notices
      = if x.2.value ∈ c.policy.ids then [false] else [] := by
  let ids := (c.policy.items.filter fun y => p.answer [] y.1).map (·.2.value)
  have hnotices : (c.removeAll w p).2.2.notices = ids.map (⟨·, false⟩) := by
    rw [h.notices_eq, List.map_map]
    rfl
  have hnodup := howned.nodup_ids
  rw [Policy.ids_eq_map_items] at hnodup ⊢
  -- the entry is under one key only, so it is among the reported if it was exclusive
  have hids : x.2.value ∈ ids ↔ x.2.value ∈ c.policy.items.map (·.2.value) := by
    refine ⟨fun hmem => (List.filter_sublist.map _).subset hmem, fun hmem => ?_⟩
    obtain ⟨y, hy, hvalue⟩ := List.mem_map.1 hmem
    rw [howned.eq_of_same_entry (howned.cached_of_item hy) hx hvalue] at hy
    exact List.mem_map_of_mem (List.mem_filter.2 ⟨hy, haccepted⟩)
  rw [hnotices, flagsOf_map_of_nodup (hnodup.sublist (List.filter_sublist.map _))]
  exact ite_congr (propext hids) (fun _ => rfl) fun _ => rfl

end RemovesByKey

end Cache

end RefCache
