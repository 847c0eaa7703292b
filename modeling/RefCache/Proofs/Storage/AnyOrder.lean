import Mathlib.Data.List.Nodup
import RefCache.Proofs.Storage.Evictees
import RefCache.Proofs.Storage.Reports

/-!
# Evicting from a storage in memory that lists in any order

What a storage in memory removes it has listed, and a removal reports what was listed. So an eviction splits
the listing by age into what it removes and what it keeps, and what it keeps fits (`EvictsInOrder`), in
whatever order the resources are listed.
-/

namespace RefCache

namespace HeapStorage

variable {order : ListingOrder} {s s' : HeapStorage} {listed : List Listed} {calls : List Removal}

/-- The removal of a resource, as it is listed. -/
def removal (e : Listed) : Removal := ⟨e.id, .ok e.size⟩

theorem reported_removals (listed : List Listed) :
    Removal.reported (listed.map removal) = totalOf Listed.size listed :=
  totalOf_map _ _ _

/-! ## What is left of the listing -/

theorem size_eq (s : HeapStorage) : s.size = totalOf Listed.size s.listing := by
  rw [listing, totalOf_map]
  rfl

theorem mem_listing {e : Listed} :
    e ∈ s.listing ↔ ∃ r, s.committed[e.id]? = some r ∧ e = ⟨e.id, r.timestamp, r.data.length⟩ := by
  constructor
  · intro he
    obtain ⟨⟨id, r⟩, hr, rfl⟩ := List.mem_map.1 he
    exact ⟨r, Std.TreeMap.mem_toList_iff_getElem?_eq_some.1 hr, rfl⟩
  · rintro ⟨r, hr, heq⟩
    exact List.mem_map.2 ⟨(e.id, r), Std.TreeMap.mem_toList_iff_getElem?_eq_some.2 hr, heq.symm⟩

theorem nodup_listing (s : HeapStorage) : s.listing.Nodup :=
  s.lists_listing.nodup.of_map _

/-- Without the ids of some of the resources listed, the others are listed. -/
theorem listing_without {removed kept : List Listed} (h : s.listing.Perm (removed ++ kept)) :
    (s.without (removed.map Listed.id)).listing.Perm kept := by
  have hids := ((h.map Listed.id).nodup_iff.1 s.lists_listing.nodup)
  rw [List.map_append] at hids
  have hnodup := (h.nodup_iff.1 s.nodup_listing)
  refine (List.perm_ext_iff_of_nodup (nodup_listing _) (List.nodup_append.1 hnodup).2.1).2 fun e => ?_
  -- only the ids of the resources removed are missing from the listing
  have hrest : e ∈ (s.without (removed.map Listed.id)).listing
      ↔ e.id ∉ removed.map Listed.id ∧ e ∈ s.listing := by
    rw [mem_listing, mem_listing, committed_without]
    by_cases hid : e.id ∈ removed.map Listed.id
    · simp [hid]
    · rw [if_neg hid, and_iff_right hid]
  rw [hrest, h.mem_iff, List.mem_append]
  constructor
  · rintro ⟨hid, hremoved | hkept⟩
    · exact absurd (List.mem_map_of_mem hremoved) hid
    · exact hkept
  · intro hkept
    exact ⟨fun hid => (List.nodup_append.1 hids).2.2 _ hid _ (List.mem_map_of_mem hkept) rfl, .inr hkept⟩

/-! ## What removals do -/

/-- Removals leave the storage without the resources. -/
theorem without_of_removes (h : (storage order).Removes s calls s') :
    s' = s.without (calls.map Removal.id) := by
  induction h with
  | nil s => rfl
  | @cons s s₁ s₂ id answer calls hremove _ ih =>
    have hs₁ : s₁ = (s.remove id).2 := (congrArg Prod.snd hremove).symm
    rw [ih, hs₁]
    rfl

/-- Removing what comes first in a listing frees what was listed. -/
theorem calls_of_removes (h : (storage order).Removes s calls s') (hlisted : s.Lists listed)
    (hfirst : calls.map Removal.id <+: listed.map Listed.id) :
    calls = (listed.take calls.length).map removal := by
  induction h generalizing listed with
  | nil s => rfl
  | @cons s s₁ s₂ id answer calls hremove _ ih =>
    cases listed with
    | nil => exact absurd (List.prefix_nil.1 hfirst) (List.cons_ne_nil _ _)
    | cons e rest =>
      -- the call is for the first resource listed, and the answer is the size that it is listed with
      rw [List.map_cons, List.map_cons, List.cons_prefix_cons] at hfirst
      obtain ⟨rfl, hfirst⟩ := hfirst
      obtain ⟨hfreed, hrest⟩ := hlisted.remove
      have hs₁ : (s.remove e.id).2 = s₁ := congrArg Prod.snd hremove
      have hanswer : Except.ok (s.remove e.id).1 = answer := congrArg Prod.fst hremove
      rw [List.length_cons, List.take_succ_cons, List.map_cons, ← ih (hs₁ ▸ hrest) hfirst, ← hanswer,
        hfreed]
      rfl

/-- An eviction down to `target` removes the resources `removed`, in this order, and keeps those of `kept`. -/
structure EvictsInOrder (order : ListingOrder) (s : HeapStorage) (target : Nat)
    (removed kept : List Listed) : Prop where
  evicts : ∃ eviction, (storage order).journaled.evictOldest (s, []) target
      = (.ok eviction, s.without (removed.map Listed.id), removed.map removal) ∧
    (storage order).evictOldest s target = (.ok eviction, s.without (removed.map Listed.id)) ∧
    (eviction.map Eviction.freed).getD 0 = totalOf Listed.size removed
  perm : s.listing.Perm (removed ++ kept)
  oldest : ∀ e ∈ removed, ∀ e' ∈ kept, e.timestamp ≤ e'.timestamp
  fits : totalOf Listed.size kept ≤ target
  just_enough : ∀ e, removed.getLast? = some e → target < totalOf Listed.size kept + e.size

/-- The resources that are removed are those at the head of the listing by age that have to go for the others
to fit. -/
theorem exists_evictsInOrder (order : ListingOrder) (s : HeapStorage) (target : Nat) :
    ∃ removed kept, EvictsInOrder order s target removed kept := by
  have h := order.perm s.listing
  obtain ⟨calls, result, s', hevicts⟩ := (storage order).exists_evictsByReports (s := s) rfl target
  have hsorted := hevicts.sorted_by_age
  have hperm := hsorted.perm.trans h
  have hcalls := calls_of_removes hevicts.removes (s.lists_listing.perm hperm.symm) hevicts.stops.first
  -- what has been asked for splits the listing by age
  obtain ⟨removed, kept, hsplit, hremoved⟩ : ∃ removed kept,
      Storage.byAge (order.arrange s.listing) = removed ++ kept ∧ calls = removed.map removal :=
    ⟨_, _, (List.take_append_drop calls.length _).symm, hcalls⟩
  subst hremoved
  have hids : (removed.map removal).map Removal.id = removed.map Listed.id := List.map_map
  have hs' := without_of_removes hevicts.removes
  rw [hids] at hs'
  subst hs'
  rw [hsplit] at hperm
  have htotal : totalOf Listed.size (order.arrange s.listing)
      = totalOf Listed.size removed + totalOf Listed.size kept := by
    rw [totalOf_perm _ (h.trans hperm.symm), totalOf_append]
  have hdone : ∀ part : List Listed, ∀ call ∈ part.map removal, call.Done := by
    intro part call hcall
    obtain ⟨e, _, rfl⟩ := List.mem_map.1 hcall
    exact Removal.done_ok _ _
  have hgoes := hevicts.stops.goes_on
  rw [hsplit, htotal] at hgoes
  refine ⟨removed, kept, ?_, hperm.symm, ?_, ?_, fun e he => ?_⟩
  · obtain ⟨eviction, rfl, hfreed⟩ := hevicts.success (hdone removed)
    exact ⟨eviction, hevicts.asked, hevicts.plain, by rw [hfreed, reported_removals]⟩
  · -- what is kept comes later in a listing that is sorted by age
    have hordered := hsorted.ordered
    rw [hsplit] at hordered
    exact (List.pairwise_append.1 hordered).2.2
  · cases kept with
    | nil => exact Nat.zero_le _
    | cons e rest =>
      -- no removal follows the last one, although there is something left to remove
      have hstop := hgoes removed.length (by simp)
      rw [List.length_map, List.take_of_length_le (Nat.le_of_eq (List.length_map _)), reported_removals,
        Nat.add_sub_cancel_left, and_iff_right (hdone removed)] at hstop
      exact Nat.le_of_not_lt fun hover => Nat.lt_irrefl _ (hstop.2 hover)
  · -- the last removal was asked for, since without it too much would have been left
    obtain ⟨init, rfl⟩ := List.getLast?_eq_some_iff.1 he
    have hlast := (hgoes init.length (by simp)).1 (by simp)
    rw [List.map_append, List.take_left' (List.length_map _), reported_removals, totalOf_append] at hlast
    have hover := hlast.2
    simp only [totalOf_cons, totalOf_nil] at hover
    omega

end HeapStorage

end RefCache
