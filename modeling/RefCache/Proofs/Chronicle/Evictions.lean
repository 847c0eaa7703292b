import RefCache.Proofs.Chronicle.Admissions
import RefCache.Proofs.Chronicle.Departures
import RefCache.Proofs.Ownership.Notices

/-!
# Evictions take the oldest entries

A policy that gives up entries loses the oldest ones of each pool, in their order (`Policy.LosesOldest`). An
operation can evict twice, by a trim and by its limits, and both together take the oldest entries
(`Asked.Ready.losesOldest`), which are the last ones that it discards and reports
(`Asked.Ready.consequences`).
-/

namespace RefCache

universe u

variable {κ : Type u} [Key κ]

namespace Policy

/-- The policy has given up the entries, the oldest ones of every pool in their order. -/
structure LosesOldest (p : Policy κ) (ids : List EntryId) (p' : Policy κ) : Prop where
  listed_eq : ∀ name, p.listed name = ids.filter (· ∈ p.listed name) ++ p'.listed name
  mem_ids : ∀ id ∈ ids, id ∈ p.ids

variable {p p' p'' : Policy κ} {ids ids' : List EntryId}

theorem LosesOldest.refl (p : Policy κ) : p.LosesOldest [] p where
  listed_eq := fun _ => rfl
  mem_ids := fun _ h => nomatch h

/-- What is left keeps its place. -/
theorem LosesOldest.sublist (h : p.LosesOldest ids p') (name : PoolName) :
    (p'.listed name).Sublist (p.listed name) := by
  rw [h.listed_eq name]
  exact List.sublist_append_right _ _

theorem LosesOldest.trans (h : p.LosesOldest ids p') (h' : p'.LosesOldest ids' p'')
    (hnodup : p.ids.Nodup) : p.LosesOldest (ids ++ ids') p'' where
  listed_eq := by
    intro name
    -- what is given up later was in the same pool before
    have hlater : ids'.filter (· ∈ p'.listed name) = ids'.filter (· ∈ p.listed name) := by
      refine List.filter_congr fun id hid => ?_
      obtain ⟨name', hlisted'⟩ := mem_ids_iff_listed.1 (h'.mem_ids id hid)
      refine decide_eq_decide.2 ⟨fun hlisted => (h.sublist name).subset hlisted, fun hlisted => ?_⟩
      rw [name_unique hnodup hlisted ((h.sublist name').subset hlisted')]
      exact hlisted'
    calc p.listed name
        = ids.filter (· ∈ p.listed name) ++ p'.listed name := h.listed_eq name
      _ = ids.filter (· ∈ p.listed name) ++ (ids'.filter (· ∈ p'.listed name) ++ p''.listed name) := by
          rw [← h'.listed_eq name]
      _ = (ids ++ ids').filter (· ∈ p.listed name) ++ p''.listed name := by
          rw [hlater, List.filter_append, List.append_assoc]
  mem_ids := by
    intro id hid
    rcases List.mem_append.1 hid with hid | hid
    · exact h.mem_ids id hid
    · obtain ⟨name, hlisted⟩ := mem_ids_iff_listed.1 (h'.mem_ids id hid)
      exact mem_ids_iff_listed.2 ⟨name, (h.sublist name).subset hlisted⟩

private theorem losesOldest_lru {queue queue' : Pool κ} (h : queue.ids = ids ++ queue'.ids) :
    (lru queue).LosesOldest ids (lru queue') where
  listed_eq := by
    intro name
    cases name with
    | queue =>
      have hall : ids.filter (· ∈ queue.ids) = ids :=
        List.filter_eq_self.2 fun id hid => by simp [h, hid]
      show queue.ids = ids.filter (· ∈ queue.ids) ++ queue'.ids
      rw [hall, h]
    | half _ => simp [listed]
  mem_ids := by
    intro id hid
    simp [ids_lru, h, hid]

private theorem losesOldest_adaptive {a a' : Adaptive κ} {fromLfu fromMfu : List EntryId}
    (hnodup : (adaptive a).ids.Nodup) (hlfu : a.lfu.ids = fromLfu ++ a'.lfu.ids)
    (hmfu : a.mfu.ids = fromMfu ++ a'.mfu.ids) :
    (adaptive a).LosesOldest (fromLfu ++ fromMfu) (adaptive a') := by
  rw [ids_adaptive] at hnodup
  have hdisjoint := List.disjoint_of_nodup_append hnodup
  have hmemLfu : ∀ id ∈ fromLfu, id ∈ a.lfu.ids := fun id hid => by simp [hlfu, hid]
  have hmemMfu : ∀ id ∈ fromMfu, id ∈ a.mfu.ids := fun id hid => by simp [hmfu, hid]
  constructor
  · intro name
    -- of what is evicted, each half has lost its own part, since nothing is in both
    cases name with
    | queue => simp [listed]
    | half half =>
      cases half with
      | lfu =>
        have hall : fromLfu.filter (· ∈ a.lfu.ids) = fromLfu :=
          List.filter_eq_self.2 fun id hid => decide_eq_true (hmemLfu id hid)
        have hnone : fromMfu.filter (· ∈ a.lfu.ids) = [] :=
          List.filter_eq_nil_iff.2 fun id hid hmem =>
            hdisjoint (of_decide_eq_true hmem) (hmemMfu id hid)
        show a.lfu.ids = (fromLfu ++ fromMfu).filter (· ∈ a.lfu.ids) ++ a'.lfu.ids
        rw [List.filter_append, hall, hnone, List.append_nil, hlfu]
      | mfu =>
        have hall : fromMfu.filter (· ∈ a.mfu.ids) = fromMfu :=
          List.filter_eq_self.2 fun id hid => decide_eq_true (hmemMfu id hid)
        have hnone : fromLfu.filter (· ∈ a.mfu.ids) = [] :=
          List.filter_eq_nil_iff.2 fun id hid hmem =>
            hdisjoint (hmemLfu id hid) (of_decide_eq_true hmem)
        show a.mfu.ids = (fromLfu ++ fromMfu).filter (· ∈ a.mfu.ids) ++ a'.mfu.ids
        rw [List.filter_append, hall, hnone, List.nil_append, hmfu]
  · intro id hid
    rw [ids_adaptive, List.mem_append]
    exact (List.mem_append.1 hid).imp (hmemLfu id) (hmemMfu id)

theorem evict_losesOldest (p : Policy κ) (hnodup : p.ids.Nodup) (accesses : EntryId → Nat)
    (maxCount maxSize : Nat) :
    p.LosesOldest (p.evict accesses maxCount maxSize).1 (p.evict accesses maxCount maxSize).2 := by
  cases p with
  | lru queue => exact losesOldest_lru (queue.ids_trimTo _ _ _)
  | adaptive a => exact losesOldest_adaptive hnodup (a.lfu.ids_trimTo _ _ _) (a.mfu.ids_trimTo _ _ _)

theorem trim_losesOldest (p : Policy κ) (hnodup : p.ids.Nodup) (accesses : EntryId → Nat) (target : Nat) :
    p.LosesOldest (p.trim accesses target).1 (p.trim accesses target).2 := by
  cases p with
  | lru queue => exact losesOldest_lru (queue.ids_trimTo _ _ _)
  | adaptive a => exact losesOldest_adaptive hnodup (a.lfu.ids_trimTo _ _ _) (a.mfu.ids_trimTo _ _ _)

end Policy

/-! ## What an operation evicts -/

namespace Asked

/-- The entries that the operation evicts from one of the pools, in order. -/
def evictedFrom (x : Asked κ) (name : PoolName) : List EntryId :=
  x.evicted.filter (· ∈ x.fullest.listed name)

variable {x : Asked κ} {l : List (Asked κ)} {name : PoolName}

private theorem Ready.nodup_policyAfter (h : x.Ready) : (x.cache.policyAfter x.op).ids.Nodup := by
  obtain ⟨base, hbefore⟩ := h.beforeEviction
  rw [← x.cache.policy_beforeEviction]
  exact hbefore.owned.nodup_ids

theorem Ready.nodup_fullest (h : x.Ready) : x.fullest.ids.Nodup := by
  have hafter := h.nodup_policyAfter
  obtain ⟨c, op⟩ := x
  cases op with
  | trim s pressure ratio => exact h.owned.nodup_ids
  | _ => exact hafter

/-- An operation evicts the oldest entries of every pool. -/
theorem Ready.losesOldest (h : x.Ready) : x.fullest.LosesOldest x.evicted x.after.policy := by
  have hnodup := h.nodup_policyAfter
  have hlimited : (x.cache.policyAfter x.op).LosesOldest x.limited x.after.policy := by
    rw [limited, after, x.cache.policy_apply]
    cases hevicts : x.op.evicts with
    | true =>
      rw [if_pos rfl, if_pos rfl, ← x.cache.policy_beforeEviction] at *
      exact Policy.evict_losesOldest _ hnodup _ _ _
    | false => exact .refl _
  obtain ⟨c, op⟩ := x
  cases op with
  | trim s pressure ratio =>
    -- a trim evicts twice, to its target and to the limits
    exact (c.policy.trim_losesOldest h.owned.nodup_ids _ _).trans hlimited h.owned.nodup_ids
  | _ => exact hlimited

theorem Ready.fullest_eq (h : x.Ready) (name : PoolName) :
    x.fullest.listed name = x.evictedFrom name ++ x.after.policy.listed name :=
  h.losesOldest.listed_eq name

/-- What is evicted comes from some pool. -/
theorem Ready.exists_evictedFrom (h : x.Ready) {id : EntryId} (hid : id ∈ x.evicted) :
    ∃ name, id ∈ x.evictedFrom name := by
  obtain ⟨name, hlisted⟩ := Policy.mem_ids_iff_listed.1 (h.losesOldest.mem_ids id hid)
  exact ⟨name, List.mem_filter.2 ⟨hid, decide_eq_true hlisted⟩⟩

/-- Nothing is evicted twice. -/
theorem Ready.nodup_evicted (h : x.Ready) : x.evicted.Nodup := by
  rw [List.nodup_iff_count_le_one]
  intro id
  by_cases hid : id ∈ x.evicted
  · obtain ⟨name, hfrom⟩ := h.exists_evictedFrom hid
    have hnodup := Policy.nodup_listed h.nodup_fullest name
    rw [h.fullest_eq] at hnodup
    -- all that there is of the entry comes from one pool
    have hcount : (x.evictedFrom name).count id = x.evicted.count id :=
      List.count_filter (List.mem_filter.1 hfrom).2
    rw [← hcount]
    exact List.nodup_iff_count_le_one.1 hnodup.of_append_left id
  · rw [List.count_eq_zero.2 hid]
    exact Nat.zero_le 1

/-- What an operation evicts from a pool was admitted before what it leaves there, and in that order. -/
theorem Ready.oldest_first (h : x.Ready) (hl : x.cache.InOrder l) (name : PoolName) :
    (x.evictedFrom name ++ x.after.policy.listed name).Sublist (admissions (l ++ [x])) := by
  rw [← h.fullest_eq name]
  exact h.inOrder_fullest hl name

/-- Pools stay in order. -/
theorem Ready.inOrder_after (h : x.Ready) (hl : x.cache.InOrder l) : x.after.InOrder (l ++ [x]) :=
  fun name => (List.sublist_append_right _ _).trans (h.oldest_first hl name)

end Asked

/-! ## Consequences -/

namespace Asked

variable {x : Asked κ} {id : EntryId}

/-- What a trim evicts to come to its target is let go and reported before its limits are looked at. -/
theorem Ready.consequences_trimmed (h : x.Ready) :
    (∃ others, (x.cache.beforeEviction x.op).notices = others ++ x.trimmed.map (⟨·, false⟩)) ∧
      ∃ others, (x.cache.beforeEviction x.op).detached = others ++ x.trimmed := by
  obtain ⟨c, op⟩ := x
  cases op with
  | trim s pressure ratio =>
    -- only a trim lets anything go to come to a target
    obtain ⟨base, hkept, _⟩ := h.accepted
    have hlog := (Cache.start_orderly h.owned hkept).log (.trimming pressure ratio (c.trimTarget ratio))
    obtain ⟨hnotices, hdetached⟩ := hlog.yield_consequences
      (c.policy.trim_yields c.entries.accesses (c.trimTarget ratio))
      (.trim (c.trimTarget ratio)
        (c.entries.keys (c.policy.trim c.entries.accesses (c.trimTarget ratio)).1))
    refine ⟨⟨[], ?_⟩, [], ?_⟩
    · exact (Transition.notices_reload _ s).trans hnotices
    · exact (Transition.detached_reload _ s).trans hdetached
  | _ => exact ⟨⟨_, (List.append_nil _).symm⟩, _, (List.append_nil _).symm⟩

/-- The last entries that an operation lets go are those it evicts, and the last notices are about them. -/
theorem Ready.consequences (h : x.Ready) :
    (∃ others, (x.cache.apply x.op).notices = others ++ x.evicted.map (⟨·, false⟩)) ∧
      ∃ others, (x.cache.apply x.op).detached = others ++ x.evicted := by
  obtain ⟨⟨others, hnotices⟩, others', hdetached⟩ := h.consequences_trimmed
  obtain ⟨base, hbefore⟩ := h.beforeEviction
  rw [x.cache.apply_eq, evicted, limited]
  cases hevicts : x.op.evicts with
  | true =>
    -- the eviction at the end reports after everything else the operation does
    obtain ⟨hnotices', hdetached'⟩ := hbefore.yield_consequences (Policy.evict_yields _ _ _ _)
      (.evict (x.cache.beforeEviction x.op).cache.queueBudget.1
        (x.cache.beforeEviction x.op).cache.queueBudget.2
        ((x.cache.beforeEviction x.op).cache.entries.keys (x.cache.beforeEviction x.op).evicted.1))
    rw [if_pos rfl, if_pos rfl, Transition.evict_eq]
    refine ⟨⟨others, ?_⟩, others', ?_⟩
    · rw [List.map_append, ← List.append_assoc, ← hnotices]
      exact hnotices'
    · rw [← List.append_assoc, ← hdetached]
      exact hdetached'
  | false => simp [hnotices, hdetached]

/-- Nobody holds what is in a pool. -/
private theorem Ready.clients_of_fullest (h : x.Ready) (hid : id ∈ x.fullest.ids) :
    x.after.entries.clients id = 0 := by
  obtain ⟨base, hbefore⟩ := h.beforeEviction
  obtain ⟨_, horderly⟩ := h.orderly
  -- what is in a pool has no clients, in whichever state the books are right
  have hnobody : ∀ {c : Cache κ}, c.Owned → id ∈ c.policy.ids → c.entries.clients id = 0 := by
    intro c howned hmem
    obtain ⟨e, he, _, hzero⟩ := (howned.mem_ids_iff id).1 hmem
    rw [EntryTable.clients_of_get? he, hzero]
  have hpolicy := x.cache.policy_beforeEviction x.op
  -- an eviction changes nobody's clients
  rw [after, horderly.marks.clients_eq]
  obtain ⟨c, op⟩ := x
  cases op with
  | trim s pressure ratio => exact hnobody h.owned hid
  | _ =>
    -- the table before the eviction counts the clients that are there after it
    rw [← hbefore.marks.clients_eq]
    exact hnobody hbefore.owned (hpolicy ▸ hid)

/-- What is evicted is in no pool any more. -/
private theorem Ready.not_mem_of_evicted (h : x.Ready) (hid : id ∈ x.evicted) :
    id ∉ x.after.policy.ids := by
  intro hmem
  obtain ⟨name, hfrom⟩ := h.exists_evictedFrom hid
  obtain ⟨name', hleft⟩ := Policy.mem_ids_iff_listed.1 hmem
  have hnodup := Policy.nodup_listed h.nodup_fullest name
  rw [h.fullest_eq] at hnodup
  have hsame : name = name' := by
    refine Policy.name_unique h.nodup_fullest ?_ ((h.losesOldest.sublist name').subset hleft)
    exact of_decide_eq_true (List.mem_filter.1 hfrom).2
  exact List.disjoint_of_nodup_append hnodup hfrom (hsame ▸ hleft)

/-- What is evicted has left the cache, and nobody holds it. -/
theorem Ready.departed_of_evicted (h : x.Ready) (hid : id ∈ x.evicted) :
    x.after.Departed id ∧ x.after.entries.clients id = 0 := by
  have hclients := h.clients_of_fullest (h.losesOldest.mem_ids id hid)
  obtain ⟨keepers, hkept, haccepts⟩ := h.accepted
  obtain ⟨_, horderly⟩ := h.orderly
  have hreports := Cache.apply_reports h.owned hkept h.determined haccepts
  refine ⟨h.owned_after.departed_of_not_cached ?_ fun y hy hyid => ?_, hclients⟩
  · -- the entry was there before, since a notice is about it
    obtain ⟨⟨others, hnotices⟩, _⟩ := h.consequences
    have halive := hreports.noticed ⟨id, false⟩ (by simp [hnotices, hid])
    have hevolves := (x.cache.evolves_tableAfter x.op).trans horderly.marks.evolves
    exact Nat.lt_of_lt_of_le halive.lt_next hevolves.next_le
  · -- cached entries without clients are in a pool
    obtain ⟨e, he, hkey, _⟩ := h.owned_after.entry_of_cached y hy
    have hget : x.after.cached.get? e.key = some y.2.value := by
      rw [hkey]
      exact (x.after.cached.get?_eq_some_iff _ _).2 ⟨y.2.size, hy⟩
    rw [hyid] at he hget
    rw [EntryTable.clients_of_get? he] at hclients
    exact h.not_mem_of_evicted hid ((h.owned_after.mem_ids_iff id).2 ⟨e, he, hget, hclients⟩)

end Asked

end RefCache
