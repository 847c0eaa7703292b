import RefCache.Proofs.Ownership.Basic

/-!
# Map, pools and table

What the ownership of entries says about look-ups, pool by pool and entry by entry. `Cache.Accounted`
collects what the totals of a cache rest on: every cached entry without clients is in a pool, and
nothing else is.
-/

namespace RefCache

universe u

variable {κ : Type u} [Key κ]

namespace Cache

/-- The pools hold the cached entries without clients, and the totals are right. -/
structure Accounted (c : Cache κ) : Prop where
  /-- What is cached and held by nobody can be evicted. -/
  pooled : ∀ k id, c.cached.get? k = some id → c.entries.clients id = 0 → id ∈ c.policy.ids
  /-- What can be evicted is cached, and no orphan. -/
  cached : ∀ id ∈ c.policy.ids, ∃ e, c.entries.get? id = some e ∧ e.orphan = false ∧
    c.cached.get? e.key = some id
  /-- The subtractions that give the totals in use do not fall below zero. -/
  count_le : c.policy.count ≤ c.count
  size_le : c.policy.size ≤ c.size
  /-- What counts as in use is held by clients. -/
  inUseCount_eq : c.inUseCount = c.busy.length
  inUseSize_eq : c.inUseSize = totalOf (fun x => x.2.size) c.busy

namespace OwnedExcept

variable {c : Cache κ} {loose : List (κ × Sized EntryId)}

theorem mem_cached_of_get? (h : c.OwnedExcept loose) {k : κ} {id : EntryId}
    (hget : c.cached.get? k = some id) :
    ∃ e, c.entries.get? id = some e ∧ e.key = k ∧ e.orphan = false ∧
      (k, ⟨id, e.size⟩) ∈ c.cached.toList := by
  obtain ⟨size, hmem⟩ := (c.cached.get?_eq_some_iff k id).1 hget
  obtain ⟨e, he, hkey, hsize, horphan⟩ := h.entry_of_cached _ hmem
  exact ⟨e, he, hkey, horphan, by rw [hsize]; exact hmem⟩

/-- The pools hold exactly the cached entries without clients. -/
theorem mem_ids_iff (h : c.Owned) (id : EntryId) :
    id ∈ c.policy.ids ↔
      ∃ e, c.entries.get? id = some e ∧ c.cached.get? e.key = some id ∧ e.clients = 0 := by
  rw [Policy.ids_eq_map_items, List.mem_map]
  constructor
  · -- an exclusive row is cached, and nobody holds it
    rintro ⟨x, hx, rfl⟩
    obtain ⟨hmem, hzero⟩ := h.mem_idle hx
    obtain ⟨e, he, hkey, _⟩ := h.entry_of_cached x hmem
    rw [EntryTable.clients_of_get? he] at hzero
    exact ⟨e, he, hkey ▸ (c.cached.get?_eq_some_iff _ _).2 ⟨_, hmem⟩, hzero⟩
  · -- the row is idle, and idle rows are exclusive
    rintro ⟨e, he, hget, hzero⟩
    obtain ⟨e', he', _, _, hmem⟩ := h.mem_cached_of_get? hget
    have hidle : (e.key, ⟨id, e'.size⟩) ∈ c.cached.toList.filter c.idle := by
      refine List.mem_filter.2 ⟨hmem, decide_eq_true ?_⟩
      rw [EntryTable.clients_of_get? he]
      exact hzero
    exact ⟨_, h.idle_perm.mem_iff.1 hidle, rfl⟩

/-- No entry is in two pools, or twice in one. -/
theorem nodup_ids (h : c.Owned) : c.policy.ids.Nodup := by
  have hperm : (c.cached.toList.filter c.idle).Perm c.policy.items := h.idle_perm
  rw [Policy.ids_eq_map_items, ← (hperm.map (·.2.value)).nodup_iff]
  -- different keys have different entries, since an entry knows its key
  have hrows : c.cached.toList.Pairwise fun x y => x.2.value ≠ y.2.value := by
    have hkeys : c.cached.toList.Pairwise fun x y => x.1 ≠ y.1 :=
      List.pairwise_map.1 c.cached.nodup_keys
    refine hkeys.imp_of_mem fun hx hy hne hvalue => hne ?_
    rw [h.eq_of_same_entry hx hy hvalue]
  exact List.pairwise_map.2 (hrows.sublist List.filter_sublist)

/-- An entry that is there without being cached under its key is an orphan. -/
theorem orphan_of_not_cached (h : c.OwnedExcept loose) {id : EntryId} {e : Entry κ}
    (he : c.entries.get? id = some e) (hnot : c.cached.get? e.key ≠ some id) : e.orphan = true := by
  rw [← Bool.not_eq_false]
  intro horphan
  exact hnot ((c.cached.get?_eq_some_iff _ _).2 ⟨_, h.cached_of_entry id e he horphan⟩)

/-- The rows of entries in use, with the sizes of their entries. -/
theorem totalOf_busy (h : c.OwnedExcept loose) :
    totalOf (fun x => x.2.size) c.busy = totalOf (fun x => c.entries.size x.2.value) c.busy := by
  refine totalOf_congr fun x hx => ?_
  obtain ⟨e, he, _, hsize, _⟩ := h.entry_of_cached x (List.mem_filter.1 hx).1
  rw [EntryTable.size, he]
  exact hsize.symm

/-- Where entries are owned as they should be, the totals are right. -/
theorem accounted (h : c.Owned) : c.Accounted where
  -- a row without clients is exclusive, and exclusive rows are cached
  pooled := by
    intro k id hget hzero
    obtain ⟨e, he, hkey, _⟩ := h.mem_cached_of_get? hget
    rw [EntryTable.clients_of_get? he] at hzero
    exact (h.mem_ids_iff id).2 ⟨e, he, hkey ▸ hget, hzero⟩
  cached := by
    intro id hid
    obtain ⟨e, he, hget, _⟩ := (h.mem_ids_iff id).1 hid
    obtain ⟨e', he', _, horphan, _⟩ := h.mem_cached_of_get? hget
    rw [he, Option.some.injEq] at he'
    exact ⟨e, he, he' ▸ horphan, hget⟩
  count_le := by
    rw [h.count_eq]
    omega
  size_le := by
    rw [h.size_eq]
    omega
  inUseCount_eq := h.inUseCount_eq
  inUseSize_eq := h.inUseSize_eq

end OwnedExcept

end Cache

end RefCache
