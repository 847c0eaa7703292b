import Mathlib.Data.List.Nodup
import RefCache.Proofs.Ownership.Forgetting
import RefCache.Proofs.Stack.SingleQueue

/-!
# A queue within a longer one

Of two caches that are asked for the same, the one with the shorter queue holds part of what the other one
holds, in the same order, and the same entries are in use in both (`Cache.Stacked`). The longer queue has no
more of a surplus than it has more room, so whatever the eviction at the end of an operation takes out of it,
it takes out of the shorter queue too (`Within.rtake`).

* `Stacked.apply`: both are asked for the same, and answer alike
* `Stacked.refresh`: a request is answered by the cache with the longer queue alone, and the reference is let
  go of at once
-/

namespace RefCache

universe u

variable {κ : Type u}

/-- The first list is part of the second one, in the same order, and the second one has no more of a surplus than
it has more room. -/
structure Within {α : Type u} (n m : Nat) (l l' : List α) : Prop where
  sublist : l.Sublist l'
  surplus : l'.length + n ≤ l.length + m

namespace Within

variable {α : Type u} {n m : Nat} {l l' : List α}

/-- The newest of the shorter list are among the newest of the longer one. -/
theorem rtake (h : Within n m l l') : Within n m (l.rtake n) (l'.rtake m) where
  sublist := by
    have hsurplus := h.surplus
    have hdropped : l'.length - m ≤ l.length - n := by omega
    rw [List.rtake, List.rtake]
    exact (h.sublist.drop _).trans (List.drop_sublist_drop_left l' hdropped)
  surplus := by
    have hsurplus := h.surplus
    rw [length_rtake, length_rtake]
    omega

/-- What a test takes out of the shorter list, it takes out of the longer one too. -/
theorem filter (h : Within n m l l') (p : α → Bool) : Within n m (l.filter p) (l'.filter p) where
  sublist := h.sublist.filter p
  surplus := by
    have hsurplus := h.surplus
    have hout := (h.sublist.filter fun x => !p x).length_le
    have hsplit := (List.filter_append_perm p l).length_eq
    have hsplit' := (List.filter_append_perm p l').length_eq
    rw [List.length_append] at hsplit hsplit'
    omega

theorem append_singleton (h : Within n m l l') (a : α) : Within n m (l ++ [a]) (l' ++ [a]) where
  sublist := h.sublist.append_right [a]
  surplus := by
    have hsurplus := h.surplus
    rw [List.length_append, List.length_append, List.length_singleton]
    omega

end Within

/-- The operation in other surroundings. -/
def Operation.under (w : Surroundings) : Operation κ → Operation κ
  | .store _ k value size observer => .store w k value size observer
  | .get _ k => .get w k
  | .probe k => .probe k
  | .reuse k => .reuse k
  | .removeAll _ p => .removeAll w p
  | .clear _ => .clear w
  | .trim _ pressure ratio => .trim w pressure ratio
  | .release _ id => .release w id

@[simp] theorem Operation.evicts_under (w : Surroundings) (op : Operation κ) :
    (op.under w).evicts = op.evicts := by
  cases op <;> rfl

variable [Key κ]

theorem Within.refreshed {n m : Nat} {rows rows' : List (κ × Sized EntryId)} (h : Within n m rows rows')
    (k : κ) : Within n m (refreshed k rows) (refreshed k rows') where
  sublist := (h.sublist.filter _).append (h.sublist.filter _)
  surplus := by
    rw [length_refreshed, length_refreshed]
    exact h.surplus

namespace Cache

/-- The queue of the second cache holds all that the queue of the first one holds, in the same order, and no
more besides than it has more room, and what is in use is the same. -/
structure Stacked (n m : Nat) (c c' : Cache κ) : Prop where
  queue : Within n m c.policy.items c'.policy.items
  next_eq : c'.entries.next = c.entries.next
  clients_eq : ∀ id, c'.entries.clients id = c.entries.clients id
  held_iff : ∀ x, 0 < c.entries.clients x.2.value → (x ∈ c'.cached.toList ↔ x ∈ c.cached.toList)

namespace Stacked

variable {n m : Nat} {c c' d d' : Cache κ}

/-! ## What it says -/

theorem busy_iff (h : Stacked n m c c') (x : κ × Sized EntryId) : x ∈ c'.busy ↔ x ∈ c.busy := by
  rw [mem_busy, mem_busy, h.clients_eq]
  constructor
  · exact fun hx => ⟨(h.held_iff x hx.2).1 hx.1, hx.2⟩
  · exact fun hx => ⟨(h.held_iff x hx.2).2 hx.1, hx.2⟩

/-- No row of an entry in use is listed twice. -/
theorem nodup_busy (c : Cache κ) : c.busy.Nodup :=
  List.Nodup.of_map Prod.fst (c.cached.nodup_keys.sublist (List.filter_sublist.map Prod.fst))

theorem busy_perm (h : Stacked n m c c') : c'.busy.Perm c.busy :=
  (List.perm_ext_iff_of_nodup (nodup_busy c') (nodup_busy c)).2 h.busy_iff

/-- What is cached beside the shorter queue is cached beside the longer one. -/
theorem cached_subset (h : Stacked n m c c') (hc : c.Owned) (hc' : c'.Owned) {x : κ × Sized EntryId}
    (hx : x ∈ c.cached.toList) : x ∈ c'.cached.toList := by
  rcases List.mem_append.1 (hc.cached_perm.mem_iff.1 hx) with hbusy | hitem
  · exact (mem_busy.1 ((h.busy_iff x).2 hbusy)).1
  · exact hc'.cached_of_item (h.queue.sublist.subset hitem)

theorem contains (h : Stacked n m c c') (hc : c.Owned) (hc' : c'.Owned) {k : κ}
    (hk : c.contains k = true) : c'.contains k = true := by
  rw [Cache.contains, SizedMap.contains_iff_mem_keys, SizedMap.keys_eq] at hk ⊢
  obtain ⟨x, hx, rfl⟩ := List.mem_map.1 hk
  exact List.mem_map_of_mem (h.cached_subset hc hc' hx)

theorem count_le (h : Stacked n m c c') (hc : c.Owned) (hc' : c'.Owned) : c.count ≤ c'.count := by
  have hcount := hc.count_eq
  have hcount' := hc'.count_eq
  have hbusy := h.busy_perm.length_eq
  have hqueue := h.queue.sublist.length_le
  rw [Policy.count_eq_length] at hcount hcount'
  omega

theorem size_le (h : Stacked n m c c') (hc : c.Owned) (hc' : c'.Owned) : c.size ≤ c'.size := by
  have hsize := hc.size_eq
  have hsize' := hc'.size_eq
  have hbusy := totalOf_perm (fun x : κ × Sized EntryId => x.2.size) h.busy_perm
  have hqueue := totalOf_le_of_sublist (fun x : κ × Sized EntryId => x.2.size) h.queue.sublist
  rw [Policy.size_eq_totalOf] at hsize hsize'
  omega

/-- What is found under a key in the cache with the shorter queue is found in the other one. -/
theorem get?_eq (h : Stacked n m c c') (hc : c.Owned) (hc' : c'.Owned) {k : κ} {id : EntryId}
    (hget : c.cached.get? k = some id) : c'.cached.get? k = some id := by
  obtain ⟨size, hmem⟩ := (c.cached.get?_eq_some_iff k id).1 hget
  exact (c'.cached.get?_eq_some_iff k id).2 ⟨size, h.cached_subset hc hc' hmem⟩

/-- What the two caches forget makes no difference. -/
theorem forget (h : Stacked n m c c') (hforgets : c.Forgets d) (hforgets' : c'.Forgets d') :
    Stacked n m d d' where
  queue := by
    rw [hforgets.policy_eq, hforgets'.policy_eq]
    exact h.queue
  next_eq := by rw [hforgets.entries.next_eq, hforgets'.entries.next_eq, h.next_eq]
  clients_eq := fun id => by rw [hforgets.clients_eq, hforgets'.clients_eq, h.clients_eq]
  held_iff := by
    intro x hx
    rw [hforgets.clients_eq] at hx
    rw [hforgets.cached_eq, hforgets'.cached_eq]
    exact h.held_iff x hx

/-! ## Admission -/

/-- Both caches take a value in, under the same number, or neither does. -/
theorem store_fst (h : Stacked n m c c') {s w : Surroundings} {k : κ} {value : ValueId} {size : Nat}
    {observer : Option String} (hx : (⟨c, .store s k value size observer⟩ : Asked κ).Plain n)
    (hx' : (⟨c', .store w k value size observer⟩ : Asked κ).Plain m) :
    (c'.store w k value size observer).1 = (c.store s k value size observer).1 := by
  obtain ⟨_, hkept, _⟩ := hx.accepted
  obtain ⟨_, hkept', _⟩ := hx'.accepted
  have hreload := (start_orderly hx.owned hkept).reload s
  have hreload' := (start_orderly hx'.owned hkept').reload w
  have hlimits := hx.limits_reload (w := s) rfl
  have hlimits' := hx'.limits_reload (w := w) rfl
  -- a reload concerns nothing in use
  have hbusy : (c.start.reload s).cache.busy = c.busy :=
    busy_congr (by rw [Transition.cached_reload]; rfl) fun id => by rw [Transition.entries_reload]; rfl
  have hbusy' : (c'.start.reload w).cache.busy = c'.busy :=
    busy_congr (by rw [Transition.cached_reload]; rfl) fun id => by rw [Transition.entries_reload]; rfl
  have hothers := h.busy_perm.filter fun x => decide (x.1 ≠ k)
  have hadmits : (c'.start.reload w).cache.admits k size = (c.start.reload s).cache.admits k size := by
    rw [Bool.eq_iff_iff, admits_iff_room hreload'.owned hlimits', admits_iff_room hreload.owned hlimits,
      hbusy, hbusy', hothers.length_eq, totalOf_perm _ hothers]
  rw [store_fst_eq hx.owned hkept, store_fst_eq hx'.owned hkept', hadmits, h.next_eq]

/-! ## One operation -/

/-- An entry that somebody holds is an orphan for both caches or for neither, and if it is none, it stands under
the same key, with the same size. -/
theorem entry_eq (h : Stacked n m c c') (hc : c.Owned) (hc' : c'.Owned) {id : EntryId} {e e' : Entry κ}
    (he : c.entries.get? id = some e) (he' : c'.entries.get? id = some e') (hheld : 0 < e.clients) :
    e'.orphan = e.orphan ∧ (e.orphan = false → e'.key = e.key ∧ e'.size = e.size) := by
  -- an entry in the map is held, so the other cache has it under the same key and size
  have hclients : 0 < c.entries.clients id := EntryTable.clients_of_get? he ▸ hheld
  cases horphan : e.orphan with
  | false =>
    have hmem := (h.held_iff (e.key, ⟨id, e.size⟩) hclients).2 (hc.cached_of_entry id e he horphan)
    obtain ⟨e₀, he₀, hkey, hsize, horphan₀⟩ := hc'.entry_of_cached _ hmem
    obtain rfl := Option.some.inj (he'.symm.trans he₀)
    exact ⟨horphan₀, fun _ => ⟨hkey, hsize⟩⟩
  | true =>
    refine ⟨?_, fun hfalse => nomatch hfalse⟩
    cases horphan' : e'.orphan with
    | true => rfl
    | false =>
      -- the second cache would hold it, and so would the first
      have hmem := (h.held_iff (e'.key, ⟨id, e'.size⟩) hclients).1 (hc'.cached_of_entry id e' he' horphan')
      obtain ⟨e₀, he₀, _, _, horphan₀⟩ := hc.entry_of_cached _ hmem
      rw [Option.some.inj (he.symm.trans he₀), horphan₀] at horphan
      exact nomatch horphan

/-- An entry whose last client lets go comes to the end of both queues, or of neither. -/
theorem within_release (h : Stacked n m c c') {s w : Surroundings} {id : EntryId}
    (hx : (⟨c, .release s id⟩ : Asked κ).Plain n) (hx' : (⟨c', .release w id⟩ : Asked κ).Plain m) :
    Within n m (c.policyAfter (.release s id)).items (c'.policyAfter (.release w id)).items := by
  obtain ⟨_, _, hheld, _⟩ := hx.accepted
  obtain ⟨_, _, hheld', _⟩ := hx'.accepted
  obtain ⟨e, he, hpos⟩ := EntryTable.exists_of_clients_pos hheld
  obtain ⟨e', he', _⟩ := EntryTable.exists_of_clients_pos hheld'
  obtain ⟨horphan, hsame⟩ := h.entry_eq hx.owned hx'.owned he he' hpos
  have hclients : e'.clients = e.clients := by
    rw [← EntryTable.clients_of_get? he, ← EntryTable.clients_of_get? he']
    exact h.clients_eq id
  -- whether the entry becomes idle is the same for both
  have hidle : (e'.dropClient.clients = 0 ∧ e'.orphan = false)
      ↔ (e.dropClient.clients = 0 ∧ e.orphan = false) := by
    simp only [Entry.dropClient, hclients, horphan]
  unfold policyAfter
  dsimp only
  rw [he, he']
  dsimp only
  by_cases hlast : e.dropClient.clients = 0 ∧ e.orphan = false
  · rw [if_pos hlast, if_pos (hidle.2 hlast), Policy.items_enqueue_last hx.queues.learns_nothing,
      Policy.items_enqueue_last hx'.queues.learns_nothing]
    obtain ⟨hkey, hsize⟩ := hsame hlast.2
    -- it becomes the newest of both queues, in place of whatever had its key
    simp only [Entry.dropClient, hkey, hsize]
    exact (h.queue.filter _).append_singleton _
  · rw [if_neg hlast, if_neg fun hlast' => hlast (hidle.1 hlast')]
    exact h.queue

variable {op : Operation κ} {w : Surroundings}

/-- What the operation leaves in the queues until it evicts. -/
theorem within_policyAfter (h : Stacked n m c c') (hx : (⟨c, op⟩ : Asked κ).Plain n)
    (hx' : (⟨c', op.under w⟩ : Asked κ).Plain m) (htrims : op.TrimsNothing)
    (hstored : ∀ s k value size observer, op = .store s k value size observer →
      (c'.store w k value size observer).1 = (c.store s k value size observer).1) :
    Within n m (c.policyAfter op).items (c'.policyAfter (op.under w)).items := by
  have hnodup := hx.owned.nodup_item_keys
  have hnodup' := hx'.owned.nodup_item_keys
  have hqueue := h.queue
  cases op with
  | store s k value size observer =>
    have hfound := hstored s k value size observer rfl
    unfold policyAfter Operation.under
    dsimp only
    rw [hfound]
    split
    · exact hqueue
    · rw [Policy.items_remove, Policy.items_remove]
      exact hqueue.filter _
  | get s k =>
    rw [Operation.under, items_policyAfter_get, items_policyAfter_get]
    exact hqueue.filter _
  | probe k =>
    rw [Operation.under, items_policyAfter_probe hx.owned hx.queues.learns_nothing,
      items_policyAfter_probe hx'.owned hx'.queues.learns_nothing]
    exact hqueue.refreshed k
  | reuse k =>
    show Within n m (c.policy.remove k).2.items (c'.policy.remove k).2.items
    rw [Policy.items_remove, Policy.items_remove]
    exact hqueue.filter _
  | removeAll s p =>
    -- a predicate of the key filters both queues alike
    show Within n m (c.policy.removeAll p []).2.items (c'.policy.removeAll p []).2.items
    rw [Policy.items_removeAll_of_keyDetermined _ hx.determined [] hnodup,
      Policy.items_removeAll_of_keyDetermined _ hx.determined [] hnodup']
    exact hqueue.filter _
  | clear s =>
    show Within n m (c.policy.removeAll .always []).2.items (c'.policy.removeAll .always []).2.items
    rw [Policy.items_removeAll_of_keyDetermined _ Predicate.keyDetermined_always [] hnodup,
      Policy.items_removeAll_of_keyDetermined _ Predicate.keyDetermined_always [] hnodup']
    exact hqueue.filter _
  | trim => exact htrims.elim
  | release s id => exact h.within_release hx hx'

/-- Clients come and go in both caches alike. -/
theorem clients_tableAfter (h : Stacked n m c c') (hx : (⟨c, op⟩ : Asked κ).Ready)
    (hx' : (⟨c', op.under w⟩ : Asked κ).Ready)
    (hstored : ∀ s k value size observer, op = .store s k value size observer →
      (c'.store w k value size observer).1 = (c.store s k value size observer).1)
    (hfound : ∀ s k, op = .get s k → c'.cached.get? k = c.cached.get? k) :
    (c'.tableAfter (op.under w)).next = (c.tableAfter op).next ∧
      ∀ id, (c'.tableAfter (op.under w)).clients id = (c.tableAfter op).clients id := by
  cases op with
  | store s k value size observer =>
    have hsame := hstored s k value size observer rfl
    unfold tableAfter Operation.under
    dsimp only
    rw [hsame]
    split
    · exact ⟨h.next_eq, h.clients_eq⟩
    · -- the new entry has the same number in both, as both have given out as many
      refine ⟨?_, fun id => ?_⟩
      · simp [EntryTable.enroll, h.next_eq]
      · rw [EntryTable.clients_enroll _ rfl, EntryTable.clients_enroll _ rfl, h.next_eq, h.clients_eq]
  | get s k =>
    have hsame := hfound s k rfl
    rw [Operation.under]
    cases hget : c.cached.get? k with
    | none =>
      rw [tableAfter_get_of_missed hget, tableAfter_get_of_missed (hsame.trans hget)]
      exact ⟨h.next_eq, h.clients_eq⟩
    | some id =>
      refine ⟨?_, fun j => ?_⟩
      · simp [tableAfter, get_fst, hsame, hget, h.next_eq]
      · rw [clients_tableAfter_get hx.owned hget, clients_tableAfter_get hx'.owned (hsame.trans hget),
          h.clients_eq]
  | release s id =>
    refine ⟨?_, fun j => ?_⟩
    · simp [tableAfter, Operation.under, h.next_eq]
    · show EntryTable.clients (c'.entries.update id Entry.dropClient) j = _
      rw [EntryTable.clients_dropClient, h.clients_eq]
      exact (EntryTable.clients_dropClient _ _ _).symm
  | _ => exact ⟨h.next_eq, h.clients_eq⟩

/-- What has a client after the operation was cached in both or in neither. -/
theorem cached_iff (h : Stacked n m c c') (hx : (⟨c, op⟩ : Asked κ).Ready)
    (hx' : (⟨c', op.under w⟩ : Asked κ).Ready)
    (hfound : ∀ s k, op = .get s k → c'.cached.get? k = c.cached.get? k) {y : κ × Sized EntryId}
    (hheld : 0 < (c.tableAfter op).clients y.2.value) : y ∈ c'.cached.toList ↔ y ∈ c.cached.toList := by
  by_cases hbefore : 0 < c.entries.clients y.2.value
  · exact h.held_iff y hbefore
  -- a first client comes with a new entry, or with a request
  cases op with
  | store s k value size observer =>
    have hnew : y.2.value = c.entries.next := by
      unfold tableAfter at hheld
      dsimp only at hheld
      split at hheld
      · exact absurd hheld hbefore
      · rw [EntryTable.clients_enroll _ rfl] at hheld
        split at hheld
        · exact Eq.symm ‹_›
        · exact absurd hheld hbefore
    have hnot : ∀ {c : Cache κ}, c.Owned → c.entries.next = y.2.value → y ∉ c.cached.toList := by
      intro c hc hnext hmem
      obtain ⟨e, he, _⟩ := hc.entry_of_cached y hmem
      have hlt := c.entries.lt_next_of_get? he
      omega
    exact iff_of_false (hnot hx'.owned (h.next_eq.trans hnew.symm)) (hnot hx.owned hnew.symm)
  | get s k =>
    cases hget : c.cached.get? k with
    | none =>
      -- the request answers nothing, and hands out nothing
      rw [tableAfter_get_of_missed hget] at hheld
      exact absurd hheld hbefore
    | some id =>
      obtain ⟨size, hrow⟩ := (c.cached.get?_eq_some_iff k id).1 hget
      -- the entry found is the only one that a client comes to
      have hid : y.2.value = id := by
        by_contra hne
        rw [clients_tableAfter_get hx.owned hget, if_neg (Ne.symm hne)] at hheld
        exact hbefore hheld
      refine ⟨fun hy => ?_, h.cached_subset hx.owned hx'.owned⟩
      rw [hx'.owned.eq_of_same_entry hy (h.cached_subset hx.owned hx'.owned hrow) hid]
      exact hrow
  -- a release gives no client, so the entry had one before
  | release s id =>
    rw [show c.tableAfter (.release s id) = c.entries.update id Entry.dropClient from rfl,
      EntryTable.clients_dropClient] at hheld
    omega
  | _ => exact absurd hheld hbefore

/-- What is taken out for reuse has no clients. -/
theorem mem_cachedAfter_reuse (hc : c.Owned) {y : κ × Sized EntryId}
    (hheld : 0 < c.entries.clients y.2.value) (k : κ) :
    y ∈ c.cachedAfter (.reuse k) ↔ y ∈ c.cached.toList := by
  unfold cachedAfter
  dsimp only
  cases hfound : (c.policy.remove k).1 with
  | none => exact Iff.rfl
  | some id =>
    obtain ⟨size, hitem⟩ := c.policy.mem_items_of_remove k id hfound
    obtain ⟨hrow, hzero⟩ := hc.mem_idle (List.mem_append_right [] hitem)
    dsimp only at hzero ⊢
    rw [List.mem_filter]
    refine ⟨fun hy => hy.1, fun hy => ⟨hy, ?_⟩⟩
    have hne : y.1 ≠ k := by
      intro hkey
      have hy' : (k, y.2) ∈ c.cached.toList := hkey ▸ hy
      -- nothing that has the key of an idle entry has clients
      rw [c.cached.eq_of_mem_toList hy' hrow, hzero] at hheld
      exact absurd hheld (Nat.lt_irrefl 0)
    simpa using hne

theorem cachedAfter_iff (h : Stacked n m c c') (hx : (⟨c, op⟩ : Asked κ).Ready)
    (hx' : (⟨c', op.under w⟩ : Asked κ).Ready)
    (hstored : ∀ s k value size observer, op = .store s k value size observer →
      (c'.store w k value size observer).1 = (c.store s k value size observer).1)
    (hfound : ∀ s k, op = .get s k → c'.cached.get? k = c.cached.get? k) {y : κ × Sized EntryId}
    (hheld : 0 < (c.tableAfter op).clients y.2.value) :
    y ∈ c'.cachedAfter (op.under w) ↔ y ∈ c.cachedAfter op := by
  have hcached := h.cached_iff hx hx' hfound hheld
  cases op with
  | store s k value size observer =>
    have hsame := hstored s k value size observer rfl
    unfold cachedAfter Operation.under
    dsimp only
    rw [hsame]
    split
    · exact hcached
    · rw [List.mem_append, List.mem_append, List.mem_filter, List.mem_filter, hcached]
  | reuse k =>
    have hheld' : 0 < c'.entries.clients y.2.value := (h.clients_eq _).symm ▸ hheld
    rw [Operation.under, mem_cachedAfter_reuse hx'.owned hheld', mem_cachedAfter_reuse hx.owned hheld]
    exact hcached
  | removeAll s p =>
    unfold cachedAfter Operation.under
    dsimp only
    rw [List.mem_filter, List.mem_filter, hcached]
  | clear s => exact Iff.rfl
  | _ => exact hcached

/-- What fits into the cache with the longer queue fits into the other one. -/
theorem fitting (h : Stacked n m c c') (hx : (⟨c, op⟩ : Asked κ).Plain n)
    (hx' : (⟨c', op.under w⟩ : Asked κ).Fitting m) : (⟨c, op⟩ : Asked κ).Fitting n := by
  -- whether a value is taken in is decided by what is in use, which is the same
  have htaken : (⟨c', op.under w⟩ : Asked κ).takenIn = (⟨c, op⟩ : Asked κ).takenIn := by
    cases op with
    | store s k value size observer =>
      have hsame := h.store_fst hx hx'.toPlain
      simp only [Asked.takenIn, Operation.under, hsame]
    | _ => rfl
  have hcount := hx'.count_le
  have hsize := hx'.size_le
  have hcountLe := h.count_le hx.owned hx'.owned
  have hsizeLe := h.size_le hx.owned hx'.owned
  rw [htaken] at hcount hsize
  dsimp only at hcount hsize
  refine { hx with count_le := ?_, size_le := ?_ }
  · dsimp only
    omega
  · dsimp only
    omega

/-- Both caches are asked for the same, and answer alike: the queue of the one stays within that of the
other. -/
theorem apply (h : Stacked n m c c') (hplain : (⟨c, op⟩ : Asked κ).Plain n)
    (hx' : (⟨c', op.under w⟩ : Asked κ).Fitting m) (htrims : op.TrimsNothing)
    (hfound : ∀ s k, op = .get s k → c'.cached.get? k = c.cached.get? k) :
    Stacked n m (c.apply op).cache (c'.apply (op.under w)).cache := by
  have hx := h.fitting hplain hx'
  have htrims' : (op.under w).TrimsNothing := by
    cases op <;> exact htrims
  have hstored : ∀ s k value size observer, op = .store s k value size observer →
      -- the answer of a store is the same in both
      (c'.store w k value size observer).1 = (c.store s k value size observer).1 := by
    rintro s k value size observer rfl
    exact h.store_fst hplain hx'.toPlain
  have hbooks := h.clients_tableAfter hx.toReady hx'.toReady hstored hfound
  have hclients := hx.clients_after
  have hclients' := hx'.clients_after
  have hitems := hx.items_after
  have hitems' := hx'.items_after
  have hwithin := h.within_policyAfter hplain hx'.toPlain htrims hstored
  constructor
  · show Within n m (Asked.after ⟨c, op⟩).policy.items (Asked.after ⟨c', op.under w⟩).policy.items
    rw [hitems, hitems']
    simp only [Operation.evicts_under]
    split
    · -- an eviction cuts both queues at their own lengths
      exact hwithin.rtake
    · exact hwithin
  · exact hx'.next_after.trans (hbooks.1.trans hx.next_after.symm)
  · exact fun id => (hclients' id).trans ((hbooks.2 id).trans (hclients id).symm)
  · intro y hheld
    -- what somebody holds is cached after the operation if it was cached before the eviction
    have hheld₁ : 0 < (c.tableAfter op).clients y.2.value := hclients y.2.value ▸ hheld
    have hheld' : 0 < (Asked.after ⟨c', op.under w⟩).entries.clients y.2.value := by
      rw [hclients', hbooks.2]
      exact hheld₁
    exact (hx'.cached_after_iff htrims' hheld').trans
      ((h.cachedAfter_iff hx.toReady hx'.toReady hstored hfound hheld₁).trans
        (hx.cached_after_iff htrims hheld).symm)

/-! ## A request that only one cache can answer -/

/-- What is cached under a key beside the longer queue alone waits in that queue. -/
theorem mem_items_of_missed (h : Stacked n m c c') (hc' : c'.Owned) {k : κ} {id : EntryId}
    (hmiss : c.cached.get? k = none) (hhit : c'.cached.get? k = some id) :
    ∃ size, (k, ⟨id, size⟩) ∈ c'.policy.items := by
  obtain ⟨size, hrow⟩ := (c'.cached.get?_eq_some_iff k id).1 hhit
  have hzero : c'.entries.clients id = 0 := by
    refine Nat.eq_zero_of_not_pos fun hpos => ?_
    rw [h.clients_eq] at hpos
    have hmem := (h.held_iff (k, ⟨id, size⟩) hpos).1 hrow
    rw [SizedMap.get?_eq_none_iff, SizedMap.keys_eq] at hmiss
    exact hmiss (List.mem_map_of_mem hmem)
  have hidle : (k, ⟨id, size⟩) ∈ c'.cached.toList.filter c'.idle :=
    List.mem_filter.2 ⟨hrow, decide_eq_true hzero⟩
  exact ⟨size, hc'.idle_perm.mem_iff.1 hidle⟩

end Stacked

/-- The second cache is the first one, but for what is forgotten, and but for the rows of the key, which have come
to the end of the queue. -/
structure Refreshes (k : κ) (c c' : Cache κ) : Prop where
  items_eq : c'.policy.items = refreshed k c.policy.items
  next_eq : c'.entries.next = c.entries.next
  clients_eq : ∀ id, c'.entries.clients id = c.entries.clients id
  held_iff : ∀ x, 0 < c.entries.clients x.2.value → (x ∈ c'.cached.toList ↔ x ∈ c.cached.toList)

variable {n m : Nat} {c c' d d' : Cache κ} {k : κ} {id : EntryId} {s w : Surroundings}

/-- A request in vain changes nothing. -/
theorem refreshes_of_missed (hx : (⟨c, .get s k⟩ : Asked κ).Fitting n) (hmiss : c.cached.get? k = none) :
    Refreshes k c (c.apply (.get s k)).cache := by
  -- what is in the queue is in the map, where the key is not
  have habsent : ∀ y ∈ c.policy.items, y.1 ≠ k := by
    intro y hy hkey
    rw [SizedMap.get?_eq_none_iff, SizedMap.keys_eq] at hmiss
    exact hmiss (hkey ▸ List.mem_map_of_mem (hx.owned.cached_of_item hy))
  have htable := tableAfter_get_of_missed hmiss s
  have hclients : ∀ j, (c.apply (.get s k)).cache.entries.clients j = c.entries.clients j :=
    fun j => (hx.clients_after j).trans (by rw [htable])
  constructor
  · -- nothing in the queue has the key
    have hpolicy : (c.policyAfter (.get s k)).items = c.policy.items := by
      rw [items_policyAfter_get]
      exact List.filter_eq_self.2 fun y hy => by simpa using habsent y hy
    refine hx.items_after.trans ((if_pos rfl).trans ?_)
    rw [hpolicy, rtake_of_length_le hx.queues.length_le, refreshed_of_absent habsent]
  · exact hx.next_after.trans (congrArg _ htable)
  · exact hclients
  · exact fun y hheld => hx.cached_after_iff trivial ((hclients y.2.value).symm ▸ hheld)

/-- A request for an entry in the queue takes it out, and evicts nothing; it has one client then. -/
theorem items_of_hit (hx : (⟨c, .get w k⟩ : Asked κ).Fitting m) {size : Nat}
    (hrow : (k, ⟨id, size⟩) ∈ c.policy.items) :
    (c.apply (.get w k)).cache.policy.items = c.policy.items.filter (·.1 ≠ k) ∧
      (∀ j, (c.apply (.get w k)).cache.entries.clients j = c.entries.clients j + if id = j then 1 else 0) ∧
      (k, ⟨id, size⟩) ∈ (c.apply (.get w k)).cache.cached.toList := by
  obtain ⟨hcached, hzero⟩ := hx.owned.mem_idle (List.mem_append_right [] hrow)
  have hget : c.cached.get? k = some id := (c.cached.get?_eq_some_iff k id).2 ⟨size, hcached⟩
  have hclients : ∀ j, (c.apply (.get w k)).cache.entries.clients j
      = c.entries.clients j + if id = j then 1 else 0 := fun j =>
    (hx.clients_after j).trans (clients_tableAfter_get hx.owned hget w j)
  refine ⟨?_, hclients, (hx.cached_after_iff trivial (y := (k, ⟨id, size⟩)) ?_).2 hcached⟩
  · -- the queue has got shorter, so the eviction at the end finds nothing to do
    have hlength := Nat.le_trans (List.length_filter_le (fun x : κ × Sized EntryId => decide (x.1 ≠ k))
      c.policy.items) hx.queues.length_le
    refine hx.items_after.trans ((if_pos rfl).trans ?_)
    rw [items_policyAfter_get, rtake_of_length_le hlength]
  · show 0 < (c.apply (.get w k)).cache.entries.clients id
    rw [hclients, if_pos rfl]
    omega

/-- A request that the queue answers, and a release at once. -/
theorem refreshes_of_hit (hx : (⟨c, .get w k⟩ : Asked κ).Fitting m) {size : Nat}
    (hrow : (k, ⟨id, size⟩) ∈ c.policy.items) (hforgets : (c.apply (.get w k)).cache.Forgets d)
    (hd : (⟨d, .release s id⟩ : Asked κ).Fitting m) :
    Refreshes k c (d.apply (.release s id)).cache := by
  obtain ⟨hcached, hzero⟩ := hx.owned.mem_idle (List.mem_append_right [] hrow)
  obtain ⟨htaken, hclients, hstill⟩ := items_of_hit hx hrow
  have hclientsd : ∀ j, (d.apply (.release s id)).cache.entries.clients j = c.entries.clients j := by
    intro j
    refine (hd.clients_after j).trans ?_
    show EntryTable.clients (d.entries.update id Entry.dropClient) j = _
    rw [EntryTable.clients_dropClient, hforgets.clients_eq, hclients, Nat.add_sub_cancel]
  constructor
  · -- the one client, which the request gave, goes; so the entry comes back as the newest
    rw [← hforgets.cached_eq] at hstill
    obtain ⟨e, he, hkey, hsize, horphan⟩ := hd.owned.entry_of_cached _ hstill
    have hone : e.clients = 1 := by
      rw [← EntryTable.clients_of_get? he, hforgets.clients_eq, hclients]
      simpa using hzero
    have hpolicy : (d.policyAfter (.release s id)).items = refreshed k c.policy.items := by
      have hlast := filter_key_of_mem hx.owned.nodup_item_keys hrow
      unfold policyAfter
      dsimp only at he hkey hsize hlast ⊢
      rw [he]
      dsimp only
      rw [if_pos ⟨by rw [Entry.dropClient, hone], horphan⟩,
        Policy.items_enqueue_last hd.queues.learns_nothing, hforgets.policy_eq, htaken]
      simp only [Entry.dropClient, hkey, hsize, refreshed, hlast, List.filter_filter, Bool.and_self]
    have hlength : (refreshed k c.policy.items).length ≤ m := by
      rw [length_refreshed]
      exact hx.queues.length_le
    refine hd.items_after.trans ((if_pos rfl).trans ?_)
    rw [hpolicy, rtake_of_length_le hlength]
  · have hnext := hx.next_after
    refine hd.next_after.trans ?_
    show (d.entries.update id Entry.dropClient).next = c.entries.next
    rw [Register.next_update, hforgets.entries.next_eq]
    refine hnext.trans ?_
    unfold tableAfter
    dsimp only
    split
    · rfl
    · exact Register.next_update _ _ _
  · exact hclientsd
  · -- what has clients is in the map before and after
    intro y hheld
    have hheldd : 0 < (d.apply (.release s id)).cache.entries.clients y.2.value :=
      (hclientsd _).symm ▸ hheld
    have hheldg : 0 < (c.apply (.get w k)).cache.entries.clients y.2.value := by
      rw [hclients]
      omega
    refine (hd.cached_after_iff trivial hheldd).trans ?_
    show y ∈ d.cached.toList ↔ y ∈ c.cached.toList
    rw [hforgets.cached_eq]
    exact hx.cached_after_iff trivial hheldg

/-- The same key is refreshed on both sides. -/
theorem Stacked.refresh (h : Stacked n m c c') (hd : Refreshes k c d) (hd' : Refreshes k c' d') :
    Stacked n m d d' where
  queue := by
    rw [hd.items_eq, hd'.items_eq]
    exact h.queue.refreshed k
  next_eq := by rw [hd.next_eq, hd'.next_eq, h.next_eq]
  clients_eq := fun id => by rw [hd.clients_eq, hd'.clients_eq, h.clients_eq]
  held_iff := by
    intro y hheld
    rw [hd.clients_eq] at hheld
    have hheld' : 0 < c'.entries.clients y.2.value := (h.clients_eq _).symm ▸ hheld
    exact (hd'.held_iff y hheld').trans ((h.held_iff y hheld).trans (hd.held_iff y hheld).symm)

end Cache

end RefCache
