import RefCache.Proofs.Ownership.Forgetting

/-!
# The same operations once more

All that an operation looks up in the table is cached, exclusive or new, so it does the same to a cache
and to one that has forgotten orphans (`Cache.Forgets.apply`). A cache that lets entries go on its way
can therefore be compared with one that goes through the operations alone.
-/

namespace RefCache

universe u

variable {κ : Type u} [Key κ]

namespace Policy

/-- A probe of an entry that both tables have. -/
theorem probe_forgets {p : Policy κ} {table table' : EntryTable κ} (h : table.Forgets table')
    (hknown : ∀ id ∈ p.ids, ∃ e, table'.get? id = some e) (k : κ) :
    (p.probe table' k).1 = (p.probe table k).1 ∧
      (p.probe table k).2.Forgets (p.probe table' k).2 := by
  cases hfound : (p.remove k).1 with
  | none =>
    rw [probe_of_absent hfound, probe_of_absent hfound]
    exact ⟨rfl, h⟩
  | some id =>
    -- what the probe finds is exclusive, so both tables have its row
    obtain ⟨size, hmem⟩ := p.mem_items_of_remove k id hfound
    have hid : id ∈ p.ids := by
      rw [ids_eq_map_items]
      exact List.mem_map_of_mem hmem
    obtain ⟨e, he⟩ := hknown id hid
    have he' := h.kept id e he
    cases p with
    | lru queue =>
      rw [probe_lru_of_found hfound he, probe_lru_of_found hfound he']
      exact ⟨rfl, h⟩
    | adaptive a =>
      rw [probe_adaptive_of_found hfound he, probe_adaptive_of_found hfound he']
      exact ⟨rfl, h.update_of_mem he _⟩

end Policy

namespace Cache

namespace Forgets

variable {c c' : Cache κ} {base : List EntryId}

theorem start_eq (h : c.Forgets c') : c'.start = c.start.withTable c'.entries :=
  congrArg Cache.start h.eq_withTable

theorem start (h : c.Forgets c') : c.start.Forgets c'.start :=
  ⟨c'.entries, h.entries, h.start_eq⟩

/-- A value is admitted to both caches or to neither. -/
theorem admits_eq (h : c.Forgets c') (hc' : c'.Owned) (k : κ) (size : Nat) :
    c'.admits k size = c.admits k size := by
  have hheld : c'.heldUnder k = c.heldUnder k := by
    rw [heldUnder, heldUnder, h.policy_eq, h.cached_eq]
    split
    · rfl
    · -- the entry cached under the key has a row in both tables, with one size
      cases hget : c.cached.get? k with
      | none => rfl
      | some id =>
        rw [← h.cached_eq] at hget
        obtain ⟨e, he, _⟩ := hc'.mem_cached_of_get? hget
        dsimp only
        rw [EntryTable.size, EntryTable.size, he, h.entries.kept id e he]
  rw [admits, admits, hheld, inUseCount, inUseCount, inUseSize, inUseSize, h.cached_eq, h.policy_eq,
    h.limits_eq]

/-! ## One lemma for each operation -/

theorem beforeEviction_store (h : c.Forgets c') (hc' : c'.Owned) (hkept : c'.KeepsOrphans base)
    (s : Surroundings) (k : κ) (value : ValueId) (size : Nat) (observer : Option String) :
    (c.beforeEviction (.store s k value size observer)).Forgets
      (c'.beforeEviction (.store s k value size observer)) := by
  have hreload := h.start.reload s
  have hadmits := hreload.cache.admits_eq ((start_orderly hc' hkept).reload s).owned k size
  unfold Cache.beforeEviction
  dsimp only
  rw [hadmits]
  split
  · exact ((hreload.supersede k).accept k value size observer).2
  · exact hreload.reject size

theorem beforeEviction_get (h : c.Forgets c') (hc' : c'.Owned) (s : Surroundings) (k : κ) :
    (c.beforeEviction (.get s k)).Forgets (c'.beforeEviction (.get s k)) := by
  obtain ⟨_, hunqueue⟩ := h.start.unqueue k
  unfold Cache.beforeEviction
  dsimp only
  rw [hunqueue.cache.cached_eq]
  cases hget : (c.start.unqueue k).2.cache.cached.get? k with
  | none => exact (hunqueue.miss k).reload s
  | some id =>
    -- what is cached is in the table
    have hget' : c'.cached.get? k = some id := by
      rw [Transition.cache_unqueue] at hget
      exact h.cached_eq ▸ hget
    obtain ⟨e, he, _⟩ := hc'.mem_cached_of_get? hget'
    have he' : (c'.start.unqueue k).2.cache.entries.get? id = some e := by
      rw [Transition.entries_unqueue]
      exact he
    exact (hunqueue.hit he').reload s

theorem probe (h : c.Forgets c') (hc' : c'.Owned) (k : κ) : (c.probe k).Forgets (c'.probe k) := by
  have hknown : ∀ id ∈ c.policy.ids, ∃ e, c'.entries.get? id = some e :=
    h.policy_eq ▸ hc'.knowsExclusive
  obtain ⟨hpolicy, htable⟩ := Policy.probe_forgets h.entries hknown k
  refine ⟨(c.policy.probe c'.entries k).2, htable, ?_⟩
  unfold Cache.probe
  dsimp only
  rw [h.policy_eq, hpolicy, h.start_eq]
  rfl

theorem reuse (h : c.Forgets c') (k : κ) : (c.reuse k).2.Forgets (c'.reuse k).2 := by
  obtain ⟨hfound, hunqueue⟩ := h.start.unqueue k
  unfold Cache.reuse
  dsimp only
  rw [hfound]
  split
  · exact hunqueue
  · exact (hunqueue.detach k).2.orphan _

theorem beforeEviction_trim (h : c.Forgets c') (hc' : c'.Owned) (s : Surroundings)
    (pressure : Pressure) (ratio : Float) :
    (c.beforeEviction (.trim s pressure ratio)).Forgets
      (c'.beforeEviction (.trim s pressure ratio)) := by
  have hlog : (c.start.log (.trimming pressure ratio (c.trimTarget ratio))).Forgets
      (c'.start.log (.trimming pressure ratio (c.trimTarget ratio))) :=
    h.start.congr (f := (·.log _)) (fun _ => rfl) rfl
  -- the pressure decides what to trim without the table, and the pools are trimmed by known uses alone
  have hyield := hlog.yield hc'.knowsExclusive
    (c.policy.trim_yields c.entries.accesses (c.trimTarget ratio)) (.trim (c.trimTarget ratio))
  have htarget : c'.trimTarget ratio = c.trimTarget ratio := by
    rw [h.eq_withTable]
    rfl
  have htrim : c'.policy.trim c'.entries.accesses (c'.trimTarget ratio)
      = c.policy.trim c.entries.accesses (c.trimTarget ratio) := by
    rw [htarget, h.policy_eq]
    exact Policy.trim_congr (h.start.accesses_eq hc'.knowsExclusive) _
  unfold Cache.beforeEviction
  dsimp only
  rw [htrim, htarget]
  exact hyield.reload s

/-! ## All operations -/

/-- What an operation does until it evicts, it does to both caches. -/
theorem beforeEviction (h : c.Forgets c') (hc' : c'.Owned) (hkept : c'.KeepsOrphans base)
    (op : Operation κ) : (c.beforeEviction op).Forgets (c'.beforeEviction op) := by
  cases op with
  | store s k value size observer => exact h.beforeEviction_store hc' hkept s k value size observer
  | get s k => exact h.beforeEviction_get hc' s k
  | probe k => exact h.probe hc' k
  | reuse k => exact h.reuse k
  | removeAll s p => exact (h.start.removeMatching hc'.knowsExclusive p).2.reload s
  | clear s => exact (h.start.removeMatching hc'.knowsExclusive .always).2.reload s
  | trim s pressure ratio => exact h.beforeEviction_trim hc' s pressure ratio
  | release s id => exact (h.start.release id).reload s

/-- A value is taken in by both caches or by neither, under the same number. -/
theorem store_fst (h : c.Forgets c') (hc' : c'.Owned) (hkept : c'.KeepsOrphans base)
    (s : Surroundings) (k : κ) (value : ValueId) (size : Nat) (observer : Option String) :
    (c'.store s k value size observer).1 = (c.store s k value size observer).1 := by
  have hreload := h.start.reload s
  have hadmits := hreload.cache.admits_eq ((start_orderly hc' hkept).reload s).owned k size
  unfold store
  dsimp only
  rw [hadmits]
  split
  · exact congrArg some ((hreload.supersede k).accept k value size observer).1
  · rfl

/-- An operation does the same to a cache and to one that has forgotten some orphans. -/
theorem apply (h : c.Forgets c') (hc' : c'.Owned) (hkept : c'.KeepsOrphans base)
    {op : Operation κ} (hop : op.KeyDetermined) (haccepts : c'.Accepts base op) :
    (c.apply op).Forgets (c'.apply op) := by
  have hbefore := h.beforeEviction hc' hkept op
  rw [apply_eq, apply_eq]
  split
  · exact hbefore.evict (beforeEviction_orderly hc' hkept hop haccepts).owned.knowsExclusive
  · exact hbefore

end Forgets

/-- What a cache does not refer to is an orphan without clients. -/
theorem forgets_forget {c : Cache κ} (h : c.Owned) {id : EntryId} (hid : c.refersTo id = false) :
    c.Forgets (c.forget id) := by
  refine forgets_withTable (EntryTable.forgets_remove fun e he => ?_)
  obtain ⟨hclients, hcached⟩ := of_not_refersTo hid he
  exact ⟨h.orphan_of_not_cached he hcached, hclients⟩

/-- What operations report, one after the other. -/
def reportsAll (c : Cache κ) : List (Operation κ) → List Notice
  | [] => []
  | op :: ops => (c.apply op).notices ++ (c.apply op).cache.reportsAll ops

/-- One more operation of a replay. -/
theorem applyAll_append (c : Cache κ) (ops : List (Operation κ)) (op : Operation κ) :
    c.applyAll (ops ++ [op]) = ((c.applyAll ops).apply op).cache := by
  rw [applyAll, List.foldl_append]
  rfl

theorem reportsAll_append (c : Cache κ) (ops : List (Operation κ)) (op : Operation κ) :
    c.reportsAll (ops ++ [op]) = c.reportsAll ops ++ ((c.applyAll ops).apply op).notices := by
  induction ops generalizing c with
  | nil => simp [reportsAll, applyAll]
  | cons first rest ih =>
    rw [List.cons_append, reportsAll, ih, reportsAll, List.append_assoc]
    rfl

end Cache

end RefCache
