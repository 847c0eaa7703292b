import RefCache.Storage.Heap

/-!
# Evicting from a storage in memory

A storage in memory lists what there is, in whatever order, and frees what it has listed. So the first
resources of a listing that have to go for the rest to fit (`Listed.beyond`) are those that an eviction removes,
and it never fails (`removeUntil_storage`, `evictOldest_storage`).
-/

namespace RefCache

/-- The resources at the head of a listing that have to go for the others to fit. -/
def Listed.beyond (target : Nat) : List Listed → List Listed
  | [] => []
  | e :: rest => if totalOf Listed.size (e :: rest) ≤ target then [] else e :: beyond target rest

theorem Listed.beyond_of_fits {target : Nat} {listing : List Listed}
    (h : totalOf Listed.size listing ≤ target) : beyond target listing = [] := by
  cases listing with
  | nil => rfl
  | cons e rest => rw [beyond, if_pos h]

namespace HeapStorage

/-- The storage after the resources of these ids have been removed. -/
def without (s : HeapStorage) (ids : List String) : HeapStorage :=
  ids.foldl (fun s id => (s.remove id).2) s

theorem committed_remove (s : HeapStorage) (id other : String) :
    (s.remove id).2.committed[other]? = if other = id then none else s.committed[other]? := by
  unfold remove
  by_cases hid : other = id
  · subst hid
    split <;> simp [*]
  · split <;> simp [Std.TreeMap.getElem?_erase, hid, Ne.symm hid]

theorem committed_without (s : HeapStorage) (ids : List String) (other : String) :
    (s.without ids).committed[other]? = if other ∈ ids then none else s.committed[other]? := by
  unfold without
  induction ids generalizing s with
  | nil => simp
  | cons id rest ih =>
    rw [List.foldl_cons, ih, committed_remove]
    by_cases hid : other = id
    · simp [hid]
    · simp [hid]

/-! ## What is listed is there -/

/-- The resources of the listing are in the storage, none of them twice. -/
structure Lists (s : HeapStorage) (listing : List Listed) : Prop where
  nodup : (listing.map Listed.id).Nodup
  found : ∀ e ∈ listing, ∃ r, s.committed[e.id]? = some r ∧ r.data.length = e.size

variable {s : HeapStorage} {e : Listed} {listing listing' : List Listed} (order : ListingOrder)

theorem lists_listing (s : HeapStorage) : s.Lists s.listing where
  nodup := by
    have hids : s.listing.map Listed.id = s.committed.keys := by
      rw [listing, List.map_map, ← Std.TreeMap.map_fst_toList_eq_keys]
      rfl
    rw [hids]
    exact s.committed.nodup_keys
  found := by
    intro e he
    obtain ⟨⟨id, r⟩, hr, rfl⟩ := List.mem_map.1 he
    exact ⟨r, Std.TreeMap.mem_toList_iff_getElem?_eq_some.1 hr, rfl⟩

theorem Lists.perm (h : s.Lists listing) (hperm : listing.Perm listing') : s.Lists listing' where
  nodup := (hperm.map Listed.id).nodup_iff.1 h.nodup
  found e he := h.found e (hperm.mem_iff.2 he)

/-- Removing what comes first frees what it was listed with, and the others are listed as before. -/
theorem Lists.remove (h : s.Lists (e :: listing)) :
    (s.remove e.id).1 = e.size ∧ (s.remove e.id).2.Lists listing := by
  have hnodup := h.nodup
  rw [List.map_cons, List.nodup_cons] at hnodup
  obtain ⟨r, hr, hsize⟩ := h.found e List.mem_cons_self
  constructor
  · rw [HeapStorage.remove, hr]
    exact hsize
  · refine ⟨hnodup.2, fun x hx => ?_⟩
    have hne : x.id ≠ e.id := fun heq => hnodup.1 (heq ▸ List.mem_map_of_mem hx)
    rw [committed_remove, if_neg hne]
    exact h.found x (List.mem_cons_of_mem _ hx)

/-! ## What an eviction removes -/

/-- An eviction removes what has to go for the rest to fit, and nothing else. -/
theorem removeUntil_storage (target freed : Nat) (h : s.Lists listing) :
    (storage order).removeUntil target listing ⟨freed, totalOf Listed.size listing⟩ s
      = (.ok ⟨freed + totalOf Listed.size (Listed.beyond target listing),
          totalOf Listed.size listing - totalOf Listed.size (Listed.beyond target listing)⟩,
        s.without ((Listed.beyond target listing).map Listed.id)) := by
  induction listing generalizing s freed with
  | nil => rfl
  | cons e rest ih =>
    rw [Storage.removeUntil, Listed.beyond]
    split
    · rfl
    · -- the first resource has to go, and what it reports is what it was listed with
      obtain ⟨hfreed, hrest⟩ := h.remove
      have hremove : (storage order).remove s e.id = (.ok e.size, (s.remove e.id).2) := by rw [← hfreed]; rfl
      have hleft : totalOf Listed.size (e :: rest) - e.size = totalOf Listed.size rest :=
        Nat.add_sub_cancel_left _ _
      rw [hremove]
      dsimp only
      rw [hleft, ih (freed + e.size) hrest, totalOf_cons, totalOf_cons, Nat.add_assoc,
        Nat.add_sub_add_left]
      rfl

/-- The ids of the resources that have to go, those of the longest ago first, for the rest to fit; the order of
the listing decides among those of one time. -/
def evictees (s : HeapStorage) (target : Nat) : List String :=
  (Listed.beyond target (Storage.byAge (order.arrange s.listing))).map Listed.id

theorem byAge_perm (listing : List Listed) : (Storage.byAge listing).Perm listing :=
  List.mergeSort_perm _ _

/-- An eviction never fails, and what it removes are the evictees. -/
theorem evictOldest_storage (s : HeapStorage) (target : Nat) :
    ∃ result, (storage order).evictOldest s target = (.ok result, s.without (s.evictees order target)) := by
  have hentries : (storage order).entries s = .ok (order.arrange s.listing) := rfl
  have hlisted := s.lists_listing.perm (order.perm s.listing).symm
  have hperm := byAge_perm (order.arrange s.listing)
  have htotal := totalOf_perm Listed.size hperm
  rw [Storage.evictOldest, hentries]
  -- the listing by age has the same total, so either both of them are over the target or neither is
  dsimp only
  split
  · rename_i hfits
    have hnone : s.evictees order target = [] := by
      rw [evictees, Listed.beyond_of_fits (Nat.le_trans (Nat.le_of_eq htotal) hfits), List.map_nil]
    exact ⟨none, by rw [hnone]; rfl⟩
  · have hremoved := removeUntil_storage order target 0 (hlisted.perm hperm.symm)
    rw [htotal] at hremoved
    rw [hremoved]
    exact ⟨_, rfl⟩

end HeapStorage

end RefCache
