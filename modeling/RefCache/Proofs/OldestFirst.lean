import RefCache.Proofs.CounterBalance
import RefCache.Proofs.Session.LettingGo

/-!
# Eviction takes the oldest first

Every pool lists its entries in the order in which they became exclusive, or were found exclusive by a probe
since. So an operation that evicts entries takes those of a pool that have been there for the longest time
(`Asked.EvictsOldest`). It discards them in this order, their observers are told in this order, and in this
order their values are released (`Session.EvictsInOrder`).
-/

namespace RefCache

universe u

variable {κ : Type u} [Key κ]

namespace Asked

variable {x : Asked κ} {l : List (Asked κ)}

/-- After the operations `l`, the operation evicts the oldest entries of every pool. -/
structure EvictsOldest (l : List (Asked κ)) (x : Asked κ) : Prop where
  /-- An entry is admitted when it becomes exclusive, and when a probe finds it exclusive. -/
  admitted_iff : ∀ id, x.admitted = some id ↔
    (id ∉ x.cache.policy.ids ∧ id ∈ x.fullest.ids) ∨ x.cache.probed x.op = some id
  /-- All that is evicted is counted as such, and comes from some pool. -/
  evictions_eq : x.after.counters.evictions = x.cache.counters.evictions + x.evicted.length
  from_pool : ∀ id ∈ x.evicted, ∃ name, id ∈ x.evictedFrom name
  /-- What is evicted from a pool stood before what is left there. -/
  listed_eq : ∀ name, x.fullest.listed name = x.evictedFrom name ++ x.after.policy.listed name
  /-- It was admitted before, and in the order in which it is evicted. -/
  admitted_before : ∀ name,
    (x.evictedFrom name ++ x.after.policy.listed name).Sublist (admissions (l ++ [x]))
  /-- The entries that are evicted are the last ones that the operation makes leave the cache. -/
  detached_eq : ∃ others, (x.cache.apply x.op).detached = others ++ x.evicted
  /-- The last things that it reports are that they are no longer exclusive. -/
  notices_eq : ∃ others, (x.cache.apply x.op).notices = others ++ x.evicted.map (⟨·, false⟩)

theorem Ready.evictions_after (h : x.Ready) :
    x.after.counters.evictions = x.cache.counters.evictions + x.evicted.length := by
  obtain ⟨out, hids, haccounts⟩ := h.accounts_for
  rw [haccounts.counters_eq, Counters.evictions_recordEvictions, x.counts_counted.evictions_eq, ← hids,
    List.length_map]

/-- No entry is found by a probe and becomes exclusive at once. -/
theorem settled_of_probed {id : EntryId} (h : x.cache.probed x.op = some id) :
    x.cache.settled x.op = none := by
  obtain ⟨c, op⟩ := x
  cases op with
  | release s j => exact nomatch h
  | _ => rfl

theorem Ready.admitted_iff (h : x.Ready) (id : EntryId) : x.admitted = some id ↔
    (id ∉ x.cache.policy.ids ∧ id ∈ x.fullest.ids) ∨ x.cache.probed x.op = some id := by
  rw [← h.settled_iff, admitted, Option.or_eq_some_iff]
  constructor
  · exact fun hadmitted => hadmitted.imp_right And.right
  · exact fun hadmitted => hadmitted.imp_right fun hprobed => ⟨settled_of_probed hprobed, hprobed⟩

/-- If the pools are in order, an operation evicts their oldest entries. -/
theorem Ready.evictsOldest (h : x.Ready) (hl : x.cache.InOrder l) : x.EvictsOldest l where
  admitted_iff := h.admitted_iff
  evictions_eq := h.evictions_after
  from_pool := fun _ hid => h.exists_evictedFrom hid
  listed_eq := h.fullest_eq
  admitted_before := h.oldest_first hl
  detached_eq := h.consequences.2
  notices_eq := h.consequences.1

end Asked

namespace Cache

/-- Without exclusive entries all pools are in order. -/
theorem inOrder_of_ids_eq_nil {c : Cache κ} {l : List (Asked κ)} (h : c.policy.ids = []) : c.InOrder l := by
  intro name
  have hnone : c.policy.listed name = [] := by
    rw [List.eq_nil_iff_forall_not_mem]
    intro id hid
    have hmem := Policy.mem_ids_iff_listed.2 ⟨name, hid⟩
    rw [h] at hmem
    exact nomatch hmem
  rw [hnone]
  exact List.nil_sublist _

end Cache

namespace Session

variable {s s' m : Session κ} {op : Operation κ} {l : List (Asked κ)}

/-- After the operations `l`, the operation evicts the oldest entries of every pool, and in the session `s'`
everything has happened in their order that follows from it. -/
structure EvictsInOrder (l : List (Asked κ)) (m : Session κ) (op : Operation κ) (s' : Session κ) :
    Prop where
  oldest : (⟨m.cache, op⟩ : Asked κ).EvictsOldest l
  /-- After all that had been told before, those with an observer were told in order. -/
  told : (m.told ++ ((⟨m.cache, op⟩ : Asked κ).evicted.map (⟨·, false⟩)).flatMap
    (m.adopt op (m.cache.apply op)).announced).Sublist s'.told
  /-- And then, in the same order, the values were released that nobody else had. -/
  released : ∃ respond : Responder κ, Responds respond ∧
    (m.finish respond op (m.cache.apply op)).events <:+ s'.events ∧ LetsGoInOrder respond m op

theorem Prepared.evictsInOrder {held : List ClientId} {grip : List ValueId} (h : m.Prepared op held grip)
    (hkept : m.KeepsInFlight) (hl : m.cache.InOrder l) (hfinishes : m.FinishesBy op s') :
    EvictsInOrder l m op s' := by
  have hready := h.ready
  obtain ⟨⟨others, hnotices⟩, _⟩ := hready.consequences
  obtain ⟨respond, hrespond, ⟨log, hlog⟩, hevents⟩ := hfinishes
  refine ⟨hready.evictsOldest hl, ?_, respond, hrespond, hevents, ?_⟩
  · have htold := h.told_sublist hkept hlog
    have hletGo : (heardOut respond m op).events <:+ (m.finish respond op (m.cache.apply op)).events :=
      events_foldl events_letGo _ _
    refine List.Sublist.trans ?_ (htold.trans (told_of_events (hletGo.trans hevents)).sublist)
    rw [hnotices, List.flatMap_append]
    exact (List.Sublist.refl _).append (List.sublist_append_right _ _)
  · exact h.letsGoInOrder hrespond.sound (hlog.proceeds.keepsInFlight (h.keepsInFlight hkept))

theorem inOrder_start (setup : Setup κ) : (start setup).cache.InOrder [] :=
  Cache.inOrder_of_ids_eq_nil (ids_start setup)

/-- There is room for values of a hundred bytes in all, and somebody listens to what becomes of them. -/
def hundredBytes : Setup Nat where
  defaultObserver := some "listener"
  limits := { maxSize := 100 }

/-- Three values come in, the first one is probed, and then a reference is held to a large value. -/
def probedThenCrowded : List (Step Nat) :=
  [.request (.put 1 { tag := "a", size := 30 } none none),
    .request (.put 2 { tag := "b", size := 30 } none none),
    .request (.put 3 { tag := "c", size := 30 } none none),
    .request (.probe 1),
    .request (.put 4 { tag := "d", size := 70 } none (some "held"))]

end Session

end RefCache
