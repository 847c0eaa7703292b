import RefCache.Proofs.Ownership.Pools
import RefCache.Proofs.Session.Reachable

/-!
# Who owns an entry, in every session

`Session.WellOwned` puts together what holds between the map of cached entries, the pools of the
policy, the counters on the entries and the references held outside, whenever no operation is under
way. It holds of every session that can be reached (`Reachable.wellOwned`).
-/

namespace RefCache

universe u

namespace Session

variable {κ : Type u} [Key κ]

/-- The cached rows whose entry some client holds. -/
def rowsInUse (s : Session κ) : List (κ × Sized EntryId) :=
  s.cache.cached.toList.filter fun x => 0 < s.cache.entries.clients x.2.value

/-- Map, pools, counters and references agree. -/
structure WellOwned (s : Session κ) : Prop where
  /-- No key is cached twice. -/
  keys_nodup : s.cache.cached.keys.Nodup
  /-- What is cached under a key has that key, and is no orphan. -/
  cached_entry : ∀ k id, s.cache.cached.get? k = some id →
    ∃ e, s.cache.entries.get? id = some e ∧ e.key = k ∧ e.orphan = false
  /-- The pools hold exactly the cached entries without clients. -/
  pooled_iff : ∀ id, id ∈ s.cache.policy.ids ↔
    ∃ e, s.cache.entries.get? id = some e ∧ s.cache.cached.get? e.key = some id ∧ e.clients = 0
  /-- All pools taken together hold an entry once at most. -/
  pooled_once : s.cache.policy.ids.Nodup
  /-- An entry counts the clients that hold it, cached or not. -/
  clients_counted : ∀ id e, s.cache.entries.get? id = some e → e.clients = s.clientsOf id
  /-- A client is there as long as references to it are held, and counts those. -/
  copies_counted : ∀ c client, s.clients.get? c = some client →
    client.copies = s.refsOf c ∧ 0 < client.copies
  /-- A reference held outside leads to a client and on to its entry. -/
  reference_live : ∀ (name : String) (c : ClientId), s.refs[name]? = some c →
    ∃ client e, s.clients.get? c = some client ∧ s.cache.entries.get? client.entry = some e
  /-- An entry that is not cached is an orphan. -/
  orphan_of_not_cached : ∀ id e, s.cache.entries.get? id = some e →
    s.cache.cached.get? e.key ≠ some id → e.orphan = true
  /-- An entry that was there once and is not cached never comes back: whatever happens, it is
  neither cached nor pooled, and it is an orphan as long as it is there. -/
  orphan_for_ever : ∀ id, id < s.cache.entries.next → (∀ k, s.cache.cached.get? k ≠ some id) →
    ∀ steps : List (Step κ), (∀ step ∈ steps, step.KeyDetermined) →
      (∀ k, (s.runAll steps).cache.cached.get? k ≠ some id) ∧
      id ∉ (s.runAll steps).cache.policy.ids ∧
      ∀ e, (s.runAll steps).cache.entries.get? id = some e → e.orphan = true
  /-- The number of entries in use is that of cached entries with clients. -/
  inUseCount_eq : s.cache.inUseCount = s.rowsInUse.length
  /-- The size in use is that of cached entries with clients. -/
  inUseSize_eq : s.cache.inUseSize
    = totalOf (fun x => s.cache.entries.size x.2.value) s.rowsInUse

end Session

/-! ## Orphans -/

namespace Cache.OwnedExcept

variable {κ : Type u} [Key κ] {c : Cache κ}

/-- An entry that is not cached stays away, whatever becomes of the cache. -/
theorem orphan_for_ever (h : c.Owned) {c' : Cache κ} {ops : List (Operation κ)}
    (htrace : c.Trace ops c') {id : EntryId} (hid : id < c.entries.next)
    (hnot : ∀ k, c.cached.get? k ≠ some id) :
    (∀ k, c'.cached.get? k ≠ some id) ∧ id ∉ c'.policy.ids ∧
      ∀ e, c'.entries.get? id = some e → e.orphan = true := by
  have howned := htrace.owned h
  have horphan : ∀ e', c'.entries.get? id = some e' → e'.orphan = true := by
    intro e' he'
    -- a mark that was set is never taken off
    obtain ⟨e, he, hbecomes⟩ := (htrace.evolves h).earlier id e' hid he'
    exact hbecomes.orphan (h.orphan_of_not_cached he (hnot e.key))
  have hcached : ∀ k, c'.cached.get? k ≠ some id := by
    intro k hget
    obtain ⟨e', he', _, hfalse, _⟩ := howned.mem_cached_of_get? hget
    rw [horphan e' he'] at hfalse
    exact nomatch hfalse
  refine ⟨hcached, fun hmem => ?_, horphan⟩
  obtain ⟨e', _, hget, _⟩ := (howned.mem_ids_iff id).1 hmem
  exact hcached e'.key hget

end Cache.OwnedExcept

/-! ## Every session -/

namespace Session

variable {κ : Type u} [Key κ] {s : Session κ}

theorem rowsInUse_eq_busy (s : Session κ) : s.rowsInUse = s.cache.busy := by
  refine List.filter_congr fun x _ => ?_
  rw [Cache.idle, ← decide_not]
  exact decide_eq_decide.2 Nat.pos_iff_ne_zero

/-- Map, pools, counters and references agree in every session that can be reached. -/
theorem Reachable.wellOwned (h : s.Reachable) : s.WellOwned := by
  have hrest := h.atRest
  have howned := hrest.consistent.owned
  have hbooks := hrest.consistent.balanced
  constructor
  · exact s.cache.cached.nodup_keys
  · -- what the map lists is in the table under its key
    intro k id hget
    obtain ⟨e, he, hkey, horphan, _⟩ := howned.mem_cached_of_get? hget
    exact ⟨e, he, hkey, horphan⟩
  · exact howned.mem_ids_iff
  · exact howned.nodup_ids
  · -- the books of clients, of copies and of names count the same references
    intro id e he
    rw [← EntryTable.clients_of_get? he]
    exact hbooks.clients_eq id
  · intro c client hc
    have hcopies := hbooks.copies_eq c
    rw [copiesOf, Register.readout_of_some _ _ hc] at hcopies
    exact ⟨hcopies, hbooks.copies_pos c client hc⟩
  · intro name c hname
    have hpos := refsOf_pos hname
    obtain ⟨client, e, hclient, he, _⟩ := hbooks.exists_client (c := c) (by omega)
    exact ⟨client, e, hclient, he⟩
  · intro id e he hnot
    exact howned.orphan_of_not_cached he hnot
  · -- what is not cached stays out of the map, whatever comes
    intro id hid hnot steps hsteps
    obtain ⟨_, ops, htrace⟩ := hrest.trace_runAll steps hsteps
    exact howned.orphan_for_ever htrace hid hnot
  · rw [rowsInUse_eq_busy]
    exact howned.inUseCount_eq
  · rw [rowsInUse_eq_busy, howned.inUseSize_eq, howned.totalOf_busy]

/-- Two values are cached; the reference to the first is held, the second has become exclusive. -/
def oneHeldOneExclusive : List (Step Nat) :=
  [.request (.put 1 { tag := "a", size := 10 } none (some "r")),
    .request (.put 2 { tag := "b", size := 20 } none none)]

theorem wellOwned_oneHeldOneExclusive :
    ((start {}).runAll oneHeldOneExclusive).WellOwned ∧
      ((start {}).runAll oneHeldOneExclusive).cache.policy.ids = [1] ∧
      ((start {}).runAll oneHeldOneExclusive).cache.inUseSize = 10 := by
  have hreachable : ((start {}).runAll oneHeldOneExclusive).Reachable := by
    refine ⟨{}, oneHeldOneExclusive, (fun _ hr => nomatch hr), fun step hstep => ?_, rfl⟩
    simp only [oneHeldOneExclusive, List.mem_cons, List.not_mem_nil, or_false] at hstep
    rcases hstep with rfl | rfl
    · trivial
    · trivial
  exact ⟨hreachable.wellOwned, by decide +kernel, by decide +kernel⟩

end Session

end RefCache
