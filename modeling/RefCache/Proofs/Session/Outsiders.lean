import RefCache.Proofs.HeldEntry
import RefCache.Proofs.Release
import RefCache.Proofs.Session.Returning

/-!
# Entries that have left, and their clients

An entry that has left the cache is in no pool and comes into none again. Its clients are not concerned: as long
as there are any, the entry is there and they can read its value (`Session.Outside`). When the last one lets go,
the entry goes, and what becomes of its value depends on who else holds it (`Session.ReleasedUnlessHeld`).
-/

namespace RefCache

universe u

variable {κ : Type u} [Key κ]

theorem Cache.OwnedExcept.not_exclusive_of_departed {c : Cache κ} (h : c.Owned) {id : EntryId}
    (hid : c.Departed id) : id ∉ c.policy.ids :=
  fun hmem => hid.not_alive (h.alive_of_item hmem)

namespace Session

/-- The entry has left the cache and is in no pool, and whoever is its client can read the value all the same. -/
structure Outside (t : Session κ) (id : EntryId) (v : ValueId) : Prop where
  departed : t.cache.Departed id
  not_exclusive : id ∉ t.cache.policy.ids
  kept : ∀ c client, t.clients.get? c = some client → client.entry = id → t.Keeps c v

/-- The value is there as long as somebody has a handle to it or a live entry carries it. Otherwise it has been
released, which is seen once if it is to be. -/
structure ReleasedUnlessHeld (s : Session κ) (v : ValueId) : Prop where
  there : 0 < s.namesOf v + s.liveCarriers v → ∃ value, s.values.get? v = some value ∧ s.releases v = 0
  released : s.namesOf v + s.liveCarriers v = 0 → s.values.get? v = none ∧
    s.releases v = if (s.creation? v).any NewValue.reported then 1 else 0

variable {s s' t : Session κ} {log : List (Incident κ)} {i : Incident κ} {base : List EntryId}
  {held : List ClientId} {grip : List ValueId} {op : Operation κ} {id : EntryId} {e : Entry κ} {v : ValueId}

/-! ## Outside the cache -/

theorem Consistent.outside (h : t.Consistent base held grip) (hid : t.cache.Departed id)
    (hvalue : ∀ e, t.cache.entries.get? id = some e → e.value = v) : t.Outside id v where
  departed := hid
  not_exclusive := h.owned.not_exclusive_of_departed hid
  kept := by
    rintro c client hclient rfl
    obtain ⟨e, he, _⟩ := EntryTable.exists_of_clients_pos (h.balanced.clients_pos hclient rfl)
    exact ⟨⟨client, e, hclient, he, hvalue e he⟩, hvalue e he ▸ h.balanced.unreleased he⟩

theorem Prepared.outside (h : t.Prepared op held grip) (hid : t.cache.Departed id)
    (hvalue : ∀ e, t.cache.entries.get? id = some e → e.value = v) : t.Outside id v where
  departed := hid
  not_exclusive := h.owned.not_exclusive_of_departed hid
  kept := by
    rintro c client hclient rfl
    -- an entry that has left is not one that the operation brings in
    obtain ⟨e', he', _⟩ := EntryTable.exists_of_clients_pos (h.balanced.clients_pos hclient rfl)
    obtain ⟨e, he, _⟩ := (t.cache.evolves_tableAfter op).earlier _ e' hid.1 he'
    exact ⟨⟨client, e, hclient, he, hvalue e he⟩, hvalue e he ▸ h.unreleased he⟩

/-- An entry carries the same value as long as it is there. -/
theorem Outlives.value_eq (h : s.Outlives t) {e' : Entry κ} (he : s.cache.entries.get? id = some e)
    (he' : t.cache.entries.get? id = some e') : e'.value = e.value := by
  obtain ⟨e₀, he₀, hbecomes⟩ := h.evolves.earlier id e' (Register.lt_next_of_get? _ he) he'
  rw [hbecomes.value_eq, Option.some.inj (he₀.symm.trans he)]

/-- What has left is outside wherever something happens after that. -/
theorem Proceeds.outside_of_mem (h : s.Proceeds log s') (hi : i ∈ log) (hid : s.cache.Departed id)
    (he : s.cache.entries.get? id = some e) : i.state.Outside id e.value := by
  have hsince : s.Outlives i.state := by
    obtain ⟨before, after, rfl⟩ := List.append_of_mem hi
    exact h.split.1.outlives
  have hlater := hid.evolves hsince.evolves
  rcases h.prepared_or_attends hi with ⟨_, _, _, _, _, hprepared⟩ | ⟨_, _, _, _, hconsistent⟩
  · exact hprepared.outside hlater fun _ he' => hsince.value_eq he he'
  · exact hconsistent.outside hlater fun _ he' => hsince.value_eq he he'

/-! ## Between steps -/

/-- Between steps, an entry that has left is there as long as it has clients. -/
theorem AtRest.exists_iff_of_departed (h : s.AtRest) (hid : s.cache.Departed id) :
    (∃ e, s.cache.entries.get? id = some e) ↔ 0 < s.clientsOf id := by
  rw [← h.consistent.balanced.clients_eq]
  constructor
  · rintro ⟨e, he⟩
    rw [EntryTable.clients_of_get? he]
    refine Nat.pos_of_ne_zero fun hzero => ?_
    -- nothing keeps an orphan without clients
    exact nomatch h.consistent.kept id e he (hid.2 e he) hzero
  · intro hpos
    obtain ⟨e, he, _⟩ := EntryTable.exists_of_clients_pos hpos
    exact ⟨e, he⟩

theorem AtRest.releasedUnlessHeld (h : s.AtRest) (v : ValueId) : s.ReleasedUnlessHeld v where
  there := by
    intro hpos
    rw [h.liveCarriers_eq] at hpos
    exact h.consistent.balanced.unreleased_of_pos (by omega)
  released := by
    intro hzero
    rw [h.liveCarriers_eq] at hzero
    exact h.consistent.balanced.released_of_zero hzero

end Session

end RefCache
