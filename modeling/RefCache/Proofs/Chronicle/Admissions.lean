import Mathlib.Data.List.Dedup
import RefCache.Proofs.Chronicle.Halves

/-!
# Pools in order of admission

An entry is admitted to a pool when its last client lets go, and anew when a probe finds it there
(`Asked.admitted`). The admissions of a chronicle are the entries that were admitted, each at the place of its
latest admission. Nothing but an admission brings an entry into a pool, and it always brings it to the end
(`Asked.Ready.listed_fullest`), so every pool lists its entries in the order of the admissions
(`Cache.InOrder`).
-/

/-- The last element is the only one of its kind that counts. -/
theorem List.dedup_concat {α : Type*} [DecidableEq α] (l : List α) (a : α) :
    (l ++ [a]).dedup = l.dedup.filter (· ≠ a) ++ [a] := by
  induction l with
  | nil => simp
  | cons b l ih =>
    rw [List.cons_append, List.dedup_cons, List.dedup_cons, ih]
    by_cases hb : b ∈ l
    · simp [hb]
    · by_cases hba : b = a
      · subst hba
        simp [hb]
      · simp [hb, hba]

namespace RefCache

universe u

variable {κ : Type u} [Key κ]

/-- Where a policy keeps an exclusive entry: in its single queue, or in one of its halves. -/
inductive PoolName where
  | queue
  | half (half : Half)
deriving DecidableEq, Repr

namespace Policy

/-- The entries in the pool of a name, in its order. A policy without the pool has none there. -/
def listed : Policy κ → PoolName → List EntryId
  | lru queue, .queue => queue.ids
  | adaptive a, .half half => (a.pool half).ids
  | _, _ => []

variable {p p' : Policy κ} {id : EntryId} {name name' : PoolName}

theorem ids_lru (queue : Pool κ) : (lru queue).ids = queue.ids := by
  simp [ids, pools]

theorem ids_adaptive (a : Adaptive κ) : (adaptive a).ids = a.lfu.ids ++ a.mfu.ids := by
  simp [ids, pools]

/-- Every exclusive entry is listed somewhere. -/
theorem mem_ids_iff_listed : id ∈ p.ids ↔ ∃ name, id ∈ p.listed name := by
  cases p with
  | lru queue =>
    rw [ids_lru]
    constructor
    · exact fun h => ⟨.queue, h⟩
    · rintro ⟨name, h⟩
      cases name with
      | queue => exact h
      | half _ => exact nomatch h
  | adaptive a =>
    rw [ids_adaptive, List.mem_append]
    -- what the two halves list together is all that is exclusive
    constructor
    · rintro (h | h)
      · exact ⟨.half .lfu, h⟩
      · exact ⟨.half .mfu, h⟩
    · rintro ⟨name, h⟩
      cases name with
      | queue => exact nomatch h
      | half half =>
        cases half with
        | lfu => exact .inl h
        | mfu => exact .inr h

theorem not_listed (h : id ∉ p.ids) (name : PoolName) : id ∉ p.listed name :=
  fun hlisted => h (mem_ids_iff_listed.2 ⟨name, hlisted⟩)

/-- No entry is listed twice. -/
theorem name_unique (hnodup : p.ids.Nodup) (h : id ∈ p.listed name) (h' : id ∈ p.listed name') :
    name = name' := by
  cases p with
  | lru queue => cases name <;> cases name' <;> simp_all [listed]
  | adaptive a =>
    -- an entry that both halves listed would be exclusive twice
    rw [ids_adaptive] at hnodup
    have hdisjoint := List.disjoint_of_nodup_append hnodup
    cases name with
    | queue => exact nomatch h
    | half half =>
      cases name' with
      | queue => exact nomatch h'
      | half half' =>
        cases half <;> cases half'
        · rfl
        · exact (hdisjoint h h').elim
        · exact (hdisjoint h' h).elim
        · rfl

theorem nodup_listed (h : p.ids.Nodup) (name : PoolName) : (p.listed name).Nodup := by
  cases p with
  | lru queue =>
    rw [ids_lru] at h
    cases name with
    | queue => exact h
    | half _ => exact List.nodup_nil
  | adaptive a =>
    rw [ids_adaptive] at h
    cases name with
    | queue => exact List.nodup_nil
    | half half =>
      cases half with
      | lfu => exact h.of_append_left
      | mfu => exact h.of_append_right

/-- If the queue keeps its order, so does what is listed. -/
private theorem listed_lru {queue queue' : Pool κ} (h : queue'.ids.Sublist queue.ids) (name : PoolName) :
    ((lru queue').listed name).Sublist ((lru queue).listed name) := by
  cases name with
  | queue => exact h
  | half _ => exact .refl _

private theorem listed_adaptive {a a' : Adaptive κ} (hlfu : a'.lfu.ids.Sublist a.lfu.ids)
    (hmfu : a'.mfu.ids.Sublist a.mfu.ids) (name : PoolName) :
    ((adaptive a').listed name).Sublist ((adaptive a).listed name) := by
  cases name with
  | queue => exact .refl _
  | half half =>
    cases half with
    | lfu => exact hlfu
    | mfu => exact hmfu

theorem listed_remove (p : Policy κ) (k : κ) (name : PoolName) :
    ((p.remove k).2.listed name).Sublist (p.listed name) := by
  cases p with
  | lru queue => exact listed_lru (queue.ids_remove_sublist k) name
  | adaptive a => exact listed_adaptive (a.lfu.ids_remove_sublist k) (a.mfu.ids_remove_sublist k) name

theorem listed_removeAll (p : Policy κ) (pred : Predicate κ) (asked : List κ) (name : PoolName) :
    ((p.removeAll pred asked).2.listed name).Sublist (p.listed name) := by
  cases p with
  | lru queue => exact listed_lru (queue.ids_removeAll_sublist pred asked) name
  | adaptive a =>
    -- the predicate has been asked about the LFU pool when the other one has its turn
    have hlfu : (a.removeAll pred asked).2.lfu.ids.Sublist a.lfu.ids :=
      a.lfu.ids_removeAll_sublist pred asked
    have hmfu : (a.removeAll pred asked).2.mfu.ids.Sublist a.mfu.ids :=
      a.mfu.ids_removeAll_sublist pred (a.lfu.entries.askedAfter asked)
    exact listed_adaptive hlfu hmfu name

/-- A request in vain moves nothing. -/
theorem listed_onMiss (p : Policy κ) (k : κ) (name : PoolName) :
    (p.onMiss k).listed name = p.listed name := by
  cases p with
  | lru queue => rfl
  | adaptive a =>
    cases name with
    | queue => rfl
    | half half => exact (adaptive a).idsOf_onMiss k half

/-- An entry that is taken in comes to the end of a pool. -/
theorem listed_enqueue (p : Policy κ) (id : EntryId) (e : Entry κ) (name : PoolName) :
    ((p.enqueue id e).listed name).Sublist (p.listed name ++ [id]) := by
  cases p with
  | lru queue =>
    cases name with
    | queue => exact queue.ids_put_sublist id e
    | half _ => exact List.nil_sublist _
  | adaptive a =>
    cases name with
    | queue => exact List.nil_sublist _
    | half half =>
      show (((a.enqueue id e).pool half).ids).Sublist ((a.pool half).ids ++ [id])
      have hstays : (a.pool half).ids.Sublist ((a.pool half).ids ++ [id]) := List.sublist_append_left _ _
      -- only the half that suits the uses of the entry takes it in
      unfold Adaptive.enqueue
      by_cases hfrequent : e.accesses > a.threshold
      · rw [if_pos hfrequent]
        cases half with
        | lfu => exact hstays
        | mfu => exact a.mfu.ids_put_sublist id e
      · rw [if_neg hfrequent]
        cases half with
        | lfu => exact a.lfu.ids_put_sublist id e
        | mfu => exact hstays

end Policy

/-! ## Admissions -/

/-- The entry whose last client lets go with the operation, while it is cached. -/
def Cache.settled (c : Cache κ) : Operation κ → Option EntryId
  | .release _ id =>
    match c.entries.get? id with
    | none => none
    | some e => if e.dropClient.clients = 0 ∧ e.orphan = false then some id else none
  | _ => none

/-- The entry that the operation admits to a pool: the one whose last client lets go, or the one that a probe
finds exclusive. -/
def Asked.admitted (x : Asked κ) : Option EntryId :=
  (x.cache.settled x.op).or (x.cache.probed x.op)

/-- The entries that were admitted, in the order of their latest admissions. -/
def admissions (l : List (Asked κ)) : List EntryId :=
  (l.filterMap Asked.admitted).dedup

/-- Whoever is admitted comes last. -/
theorem admissions_concat (l : List (Asked κ)) (x : Asked κ) :
    admissions (l ++ [x])
      = (admissions l).filter (fun id => x.admitted ≠ some id) ++ x.admitted.toList := by
  cases hx : x.admitted with
  | none => simp [admissions, List.filterMap_append, hx]
  | some id =>
    have hconcat : (l ++ [x]).filterMap Asked.admitted = l.filterMap Asked.admitted ++ [id] := by
      simp [List.filterMap_append, hx]
    rw [admissions, hconcat, List.dedup_concat]
    simp [admissions, eq_comm]

/-- Every pool lists its entries in the order of the admissions. -/
def Cache.InOrder (c : Cache κ) (l : List (Asked κ)) : Prop :=
  ∀ name, (c.policy.listed name).Sublist (admissions l)

/-- The policy from which an operation evicts, if it does: a trim evicts from what it finds, and others from what
they have made of the policy. -/
def Asked.fullest (x : Asked κ) : Policy κ :=
  match x.op with
  | .trim .. => x.cache.policy
  | op => x.cache.policyAfter op

namespace Asked

variable {x : Asked κ} {l : List (Asked κ)} {name : PoolName} {id : EntryId}

/-- What loses an entry, and may get it back at the end, lists the others as before. -/
private theorem readmitted {old kept new : List EntryId} (hkept : kept.Sublist old) (hid : id ∉ kept)
    (hnew : new.Sublist (kept ++ [id])) :
    new.Sublist (old.filter (fun j => some id ≠ some j) ++ (some id).toList) := by
  have hself : kept.filter (fun j => some id ≠ some j) = kept := by
    refine List.filter_eq_self.2 fun j hj => ?_
    simp only [ne_eq, Option.some.injEq, decide_not, Bool.not_eq_true', decide_eq_false_iff_not]
    rintro rfl
    exact hid hj
  have hothers := hkept.filter fun j => decide (some id ≠ some j)
  rw [hself] at hothers
  exact hnew.trans (hothers.append (.refl _))

/-- Where nobody is admitted, a pool loses entries at most. -/
private theorem unadmitted {new old : List EntryId} (hadmitted : x.admitted = none) (h : new.Sublist old) :
    new.Sublist (old.filter (fun j => x.admitted ≠ some j) ++ x.admitted.toList) := by
  simpa [hadmitted] using h

/-- What a probe finds leaves its place. -/
theorem Ready.not_mem_of_removed (h : x.Ready) {k : κ} (hfound : (x.cache.policy.remove k).1 = some id) :
    id ∉ (x.cache.policy.remove k).2.ids := by
  intro hmem
  rw [Policy.ids_eq_map_items, Policy.items_remove] at hmem
  obtain ⟨y, hy, hyid⟩ := List.mem_map.1 hmem
  obtain ⟨hitem, hkey⟩ := List.mem_filter.1 hy
  obtain ⟨size, hrow⟩ := x.cache.policy.mem_items_of_remove k id hfound
  -- the entry has one row only, and its key is the one that was probed
  have hsame := h.owned.eq_of_same_entry (h.owned.cached_of_item hitem) (h.owned.cached_of_item hrow) hyid
  simp [hsame] at hkey

/-- An entry with a client is in no pool. -/
theorem Ready.not_mem_of_client (h : x.Ready) (hclients : 0 < x.cache.entries.clients id) :
    id ∉ x.cache.policy.ids := by
  intro hmem
  obtain ⟨e, he, _, hzero⟩ := (h.owned.mem_ids_iff id).1 hmem
  rw [EntryTable.clients_of_get? he] at hclients
  omega

/-- The entry that a client lets go of is there, and has a client. -/
theorem Ready.exists_released (h : x.Ready) {s : Surroundings} (hop : x.op = .release s id) :
    ∃ e, x.cache.entries.get? id = some e ∧ 0 < e.clients := by
  obtain ⟨_, _, haccepts⟩ := h.accepted
  rw [hop] at haccepts
  exact EntryTable.exists_of_clients_pos haccepts.1

/-- What a probe finds is taken out of its pool and put back at the end of one. -/
private theorem Ready.listed_probe {c : Cache κ} {k : κ} (h : (⟨c, .probe k⟩ : Asked κ).Ready)
    (name : PoolName) : ((c.policy.probe c.entries k).1.listed name).Sublist
      ((c.policy.listed name).filter (fun id => (c.policy.remove k).1 ≠ some id)
        ++ (c.policy.remove k).1.toList) := by
  have hrest := c.policy.listed_remove k name
  cases hfound : (c.policy.remove k).1 with
  | none =>
    rw [Policy.probe_of_absent hfound]
    simpa using hrest
  | some id =>
    have hout := Policy.not_listed (h.not_mem_of_removed hfound) name
    rcases c.policy.probe_fst_cases c.entries k with heq | ⟨id', e, hfound', heq⟩
    · rw [heq]
      exact readmitted hrest hout (List.sublist_append_left _ _)
    · rw [heq]
      obtain rfl : id = id' := Option.some.inj (hfound.symm.trans hfound')
      exact readmitted hrest hout (Policy.listed_enqueue _ id e name)

/-- An entry whose last client lets go is put at the end of a pool, unless it has left the cache. -/
private theorem Ready.listed_release {c : Cache κ} {s : Surroundings}
    (h : (⟨c, .release s id⟩ : Asked κ).Ready) (name : PoolName) :
    ((c.policyAfter (.release s id)).listed name).Sublist ((c.policy.listed name).filter
        (fun j => (⟨c, .release s id⟩ : Asked κ).admitted ≠ some j)
      ++ (⟨c, .release s id⟩ : Asked κ).admitted.toList) := by
  obtain ⟨e, he, hclients⟩ := h.exists_released rfl
  -- until then it has a client, so it is in no pool
  have hout := Policy.not_listed (h.not_mem_of_client (EntryTable.clients_of_get? he ▸ hclients)) name
  by_cases hlast : e.dropClient.clients = 0 ∧ e.orphan = false
  · have hadmitted : (⟨c, .release s id⟩ : Asked κ).admitted = some id := by
      simp [admitted, Cache.settled, Cache.probed, he, hlast]
    simp only [Cache.policyAfter, he, if_pos hlast, hadmitted]
    exact readmitted (.refl _) hout (c.policy.listed_enqueue id e.dropClient name)
  · have hadmitted : (⟨c, .release s id⟩ : Asked κ).admitted = none := by
      simp [admitted, Cache.settled, Cache.probed, he, hlast]
    simp [Cache.policyAfter, he, hlast, hadmitted]

/-- Pools list what they listed before, and the one that is admitted comes last. -/
theorem Ready.listed_fullest (h : x.Ready) (name : PoolName) :
    (x.fullest.listed name).Sublist
      ((x.cache.policy.listed name).filter (fun id => x.admitted ≠ some id) ++ x.admitted.toList) := by
  obtain ⟨c, op⟩ := x
  -- only a probe and a release admit anything; the others leave each pool a part of what it was
  cases op with
  | store s k value size observer =>
    refine unadmitted rfl ?_
    show ((c.policyAfter (.store s k value size observer)).listed name).Sublist (c.policy.listed name)
    -- what is turned down changes no pool
    cases hstored : (c.store s k value size observer).1 with
    | none => simp [Cache.policyAfter, hstored]
    | some id =>
      simp only [Cache.policyAfter, hstored]
      exact c.policy.listed_remove k name
  | get s k =>
    refine unadmitted rfl ?_
    show ((c.policyAfter (.get s k)).listed name).Sublist (c.policy.listed name)
    cases hget : c.cached.get? k with
    | none =>
      simp only [Cache.policyAfter, hget, Policy.listed_onMiss]
      exact c.policy.listed_remove k name
    | some id =>
      simp only [Cache.policyAfter, hget]
      exact c.policy.listed_remove k name
  | probe k => exact h.listed_probe name
  | reuse k => exact unadmitted rfl (c.policy.listed_remove k name)
  | removeAll s p => exact unadmitted rfl (c.policy.listed_removeAll p [] name)
  | clear s => exact unadmitted rfl (c.policy.listed_removeAll .always [] name)
  | trim s pressure ratio => exact unadmitted rfl (.refl _)
  | release s id => exact h.listed_release name

/-- Before the operation evicts, its pools are in order. -/
theorem Ready.inOrder_fullest (h : x.Ready) (hl : x.cache.InOrder l) (name : PoolName) :
    (x.fullest.listed name).Sublist (admissions (l ++ [x])) := by
  rw [admissions_concat]
  exact (h.listed_fullest name).trans (((hl name).filter _).append (.refl _))

/-- An entry whose last client lets go is in a pool then, and was in none before. -/
private theorem Ready.of_settled (h : x.Ready) (hsettled : x.cache.settled x.op = some id) :
    id ∉ x.cache.policy.ids ∧ id ∈ x.fullest.ids := by
  obtain ⟨c, op⟩ := x
  cases op with
  | release s j =>
    obtain ⟨e, he, hclients⟩ := h.exists_released rfl
    change c.entries.get? j = some e at he
    by_cases hlast : e.dropClient.clients = 0 ∧ e.orphan = false
    · -- only an entry that is no orphan and has lost its last client settles
      obtain rfl : j = id := by simpa [Cache.settled, he, hlast] using hsettled
      have hnew := h.owned.not_item_of_held he hclients (h.owned.cached_of_entry j e he hlast.2)
      constructor
      · exact h.not_mem_of_client (EntryTable.clients_of_get? he ▸ hclients)
      · show j ∈ (c.policyAfter (.release s j)).ids
        simp only [Cache.policyAfter, he, if_pos hlast, Policy.ids_eq_map_items]
        have hperm := (c.policy.items_enqueue j e.dropClient hnew).map (·.2.value)
        exact hperm.mem_iff.2 List.mem_cons_self
    · simp [Cache.settled, he, hlast] at hsettled
  | _ => simp [Cache.settled] at hsettled

/-- An entry becomes exclusive when its last client lets go of it while it is cached, and in no other way. -/
theorem Ready.settled_iff (h : x.Ready) : x.cache.settled x.op = some id ↔
    id ∉ x.cache.policy.ids ∧ id ∈ x.fullest.ids := by
  refine ⟨h.of_settled, fun ⟨hnew, hmem⟩ => ?_⟩
  obtain ⟨name, hlisted⟩ := Policy.mem_ids_iff_listed.1 hmem
  have hadmitted : x.admitted = some id := by
    -- what a pool lists is from before, or is the one admitted
    rcases List.mem_append.1 ((h.listed_fullest name).subset hlisted) with hold | hlast
    · exact absurd (Policy.mem_ids_iff_listed.2 ⟨name, List.mem_of_mem_filter hold⟩) hnew
    · exact Option.mem_toList.1 hlast
  rcases Option.or_eq_some_iff.1 hadmitted with hsettled | ⟨_, hprobed⟩
  · exact hsettled
  · -- what a probe finds was exclusive before
    refine absurd ?_ hnew
    unfold Cache.probed at hprobed
    split at hprobed
    · obtain ⟨size, hitem⟩ := x.cache.policy.mem_items_of_remove _ id hprobed
      rw [Policy.ids_eq_map_items]
      exact List.mem_map_of_mem hitem
    · exact nomatch hprobed

end Asked

end RefCache
