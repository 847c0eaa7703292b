import RefCache.Proofs.Ownership.Discard
import RefCache.Proofs.Ownership.Operations

/-!
# What stays cached

An operation gives up exclusive entries, and what it is asked to replace or to remove (`Cache.Spares`
says that it is not asked to). An entry that has a client all along stays where it is
(`Cache.stays_apply`).
-/

namespace RefCache

universe u

variable {κ : Type u} [Key κ]

namespace Transition

variable {t : Transition κ} {table : EntryTable κ} {base : List EntryId} {x : κ × Sized EntryId}

/-- Nothing exclusive has the key of an entry with a client. -/
theorem Orderly.not_exclusive (h : t.Orderly table base []) (hx : x ∈ t.cache.cached.toList)
    (hclients : 0 < table.clients x.2.value) : ∀ y ∈ t.cache.policy.items, y.1 ≠ x.1 := by
  obtain ⟨e, he, hkey, hsize, _⟩ := h.owned.entry_of_cached x hx
  rw [← h.marks.clients_eq, EntryTable.clients_of_get? he] at hclients
  rw [← hkey]
  refine h.owned.not_item_of_held he hclients ?_
  rw [hkey, hsize]
  exact hx

/-- What a policy yields is discarded, and an entry with a client is nothing that it yields. -/
theorem Orderly.stays_discarded (h : t.Orderly table base []) {ids : List EntryId}
    {policy : Policy κ} (hyield : t.cache.policy.Yields ids policy) (call : PolicyCall κ)
    (hx : x ∈ t.cache.cached.toList) (hclients : 0 < table.clients x.2.value) :
    x ∈ (((t.modify ({ · with policy := policy })).called call).discard ids).cache.cached.toList := by
  obtain ⟨out, rfl, hperm⟩ := hyield
  have hitem : ∀ y ∈ out, y ∈ t.cache.policy.items :=
    fun y hy => hperm.mem_iff.2 (List.mem_append_left _ hy)
  -- what is given up was exclusive, and each row of it takes its own key along
  have hrows : ∀ y ∈ out, ∃ e,
      ((t.modify ({ · with policy := policy })).called call).cache.entries.get? y.2.value = some e ∧
        e.key = y.1 := by
    intro y hy
    obtain ⟨e, he, hkey, _⟩ := h.owned.entry_of_cached y (h.owned.cached_of_item (hitem y hy))
    exact ⟨e, he, hkey⟩
  rw [(discard_sheds hrows).cached_eq, List.mem_filter]
  -- an entry with a client shares its key with none of these
  refine ⟨hx, decide_eq_true fun hmem => ?_⟩
  obtain ⟨y, hy, hkey⟩ := List.mem_map.1 hmem
  exact h.not_exclusive hx hclients y (hitem y hy) hkey

theorem Orderly.stays_evict (h : t.Orderly table base []) (hx : x ∈ t.cache.cached.toList)
    (hclients : 0 < table.clients x.2.value) : x ∈ t.evict.cache.cached.toList :=
  h.stays_discarded (t.cache.policy.evict_yields _ _ _) _ hx hclients

end Transition

namespace Cache

/-- The operation neither takes a value in under the key nor is asked to remove what is there. -/
def Spares (c : Cache κ) (k : κ) : Operation κ → Prop
  | .store s k' value size observer => k' = k → (c.store s k' value size observer).1 = none
  | .removeAll _ p => p.answer [] k = false
  | .clear _ => False
  | _ => True

variable {c : Cache κ} {base : List EntryId} {x : κ × Sized EntryId}

/-! ## One lemma for each operation -/

/-- A value that is taken in has another key. -/
theorem stays_store {s : Surroundings} {k : κ} {value : ValueId} {size : Nat}
    {observer : Option String} (hspares : c.Spares x.1 (.store s k value size observer))
    (hx : x ∈ c.cached.toList) :
    x ∈ (c.beforeEviction (.store s k value size observer)).cache.cached.toList := by
  unfold beforeEviction
  dsimp only
  split
  · rename_i hadmits
    have hne : x.1 ≠ k := by
      intro heq
      have hrejected := hspares heq.symm
      unfold store at hrejected
      simp [hadmits] at hrejected
    -- superseding removes what has the key of the value, and the entry has another one
    have hstays : x ∈ ((c.start.reload s).supersede k).cache.cached.toList := by
      rw [Transition.cached_supersede, Transition.cached_reload]
      exact List.mem_filter.2 ⟨hx, decide_eq_true hne⟩
    show x ∈ (SizedMap.put _ k _ size).toList
    rw [SizedMap.toList_put]
    exact List.mem_append_left _ (List.mem_filter.2 ⟨hstays, decide_eq_true hne⟩)
  · show x ∈ (c.start.reload s).cache.cached.toList
    rw [Transition.cached_reload]
    exact hx

theorem stays_unqueue (hx : x ∈ c.cached.toList) (k : κ) :
    x ∈ (c.start.unqueue k).2.cache.cached.toList := by
  rw [Transition.cache_unqueue]
  exact hx

theorem stays_get (hx : x ∈ c.cached.toList) (s : Surroundings) (k : κ) :
    x ∈ (c.beforeEviction (.get s k)).cache.cached.toList := by
  unfold beforeEviction
  dsimp only
  split
  · rw [Transition.cached_reload]
    exact stays_unqueue hx k
  · rw [Transition.cached_reload]
    exact stays_unqueue hx k

/-- What is taken out for reuse was exclusive. -/
theorem stays_reuse (h : c.Owned) (hkept : c.KeepsOrphans base) (hx : x ∈ c.cached.toList)
    (hclients : 0 < c.entries.clients x.2.value) (k : κ) :
    x ∈ (c.reuse k).2.cache.cached.toList := by
  have hunqueue := stays_unqueue hx k
  unfold reuse
  dsimp only
  split
  · exact hunqueue
  · rename_i id hfound
    rw [Transition.unqueue_fst] at hfound
    obtain ⟨size, hitem⟩ := c.policy.mem_items_of_remove k id hfound
    have hne : x.1 ≠ k := Ne.symm ((start_orderly h hkept).not_exclusive hx hclients _ hitem)
    show x ∈ ((c.start.unqueue k).2.detach k).2.cache.cached.toList
    rw [Transition.cached_detach]
    exact List.mem_filter.2 ⟨hunqueue, decide_eq_true hne⟩

theorem stays_removeAll {p : Predicate κ} (hp : p.KeyDetermined) (hspares : p.answer [] x.1 = false)
    (hx : x ∈ c.cached.toList) (s : Surroundings) :
    x ∈ (c.beforeEviction (.removeAll s p)).cache.cached.toList := by
  show x ∈ ((c.start.removeMatching p).2.2.reload s).cache.cached.toList
  rw [Transition.cached_reload, Transition.cache_removeMatching]
  show x ∈ (c.cached.removeAll p _).2.toList
  rw [(c.cached.removeAll_of_keyDetermined hp _).2, List.mem_filter]
  exact ⟨hx, by simpa using hspares⟩

/-- What is trimmed was exclusive. -/
theorem stays_trim (h : c.Owned) (hkept : c.KeepsOrphans base) (hx : x ∈ c.cached.toList)
    (hclients : 0 < c.entries.clients x.2.value) (s : Surroundings) (pressure : Pressure)
    (ratio : Float) : x ∈ (c.beforeEviction (.trim s pressure ratio)).cache.cached.toList := by
  have hlog := (start_orderly h hkept).log (.trimming pressure ratio (c.trimTarget ratio))
  have hstays := hlog.stays_discarded (c.policy.trim_yields c.entries.accesses (c.trimTarget ratio))
    (.trim (c.trimTarget ratio) (c.entries.keys (c.policy.trim c.entries.accesses
      (c.trimTarget ratio)).1)) hx hclients
  unfold beforeEviction
  dsimp only
  rw [Transition.cached_reload]
  exact hstays

theorem stays_release (hx : x ∈ c.cached.toList) (s : Surroundings) (id : EntryId) :
    x ∈ (c.beforeEviction (.release s id)).cache.cached.toList := by
  show x ∈ (((c.start.updateEntry id Entry.dropClient).settle id).reload s).cache.cached.toList
  rw [Transition.cached_reload, Transition.cached_settle]
  exact hx

/-! ## All operations -/

/-- Until it evicts, an operation that spares the key of an entry with a client leaves it cached. -/
theorem stays_beforeEviction (h : c.Owned) (hkept : c.KeepsOrphans base) {op : Operation κ}
    (hop : op.KeyDetermined) (hspares : c.Spares x.1 op) (hx : x ∈ c.cached.toList)
    (hclients : 0 < (c.tableAfter op).clients x.2.value) :
    x ∈ (c.beforeEviction op).cache.cached.toList := by
  cases op with
  | store s k value size observer => exact stays_store hspares hx
  | get s k => exact stays_get hx s k
  | probe k => exact hx
  | reuse k => exact stays_reuse h hkept hx hclients k
  | removeAll s p => exact stays_removeAll hop hspares hx s
  | clear s => exact hspares.elim
  | trim s pressure ratio => exact stays_trim h hkept hx hclients s pressure ratio
  | release s id => exact stays_release hx s id

/-- An entry that has a client when the operation is performed stays cached. -/
theorem stays_apply (h : c.Owned) (hkept : c.KeepsOrphans base) {op : Operation κ}
    (hop : op.KeyDetermined) (haccepts : c.Accepts base op) (hspares : c.Spares x.1 op)
    (hx : x ∈ c.cached.toList) (hclients : 0 < (c.tableAfter op).clients x.2.value) :
    x ∈ (c.apply op).cache.cached.toList := by
  have hstays := stays_beforeEviction h hkept hop hspares hx hclients
  rw [apply_eq]
  split
  · exact (beforeEviction_orderly h hkept hop haccepts).stays_evict hstays hclients
  · exact hstays

/-! ## Several operations -/

instance (c : Cache κ) (k : κ) (op : Operation κ) : Decidable (c.Spares k op) :=
  match op with
  | .store s k' value size observer =>
    inferInstanceAs (Decidable (k' = k → (c.store s k' value size observer).1 = none))
  | .removeAll _ p => inferInstanceAs (Decidable (p.answer [] k = false))
  | .clear _ => inferInstanceAs (Decidable False)
  | .get .. | .probe _ | .reuse _ | .trim .. | .release .. => inferInstanceAs (Decidable True)

/-- The operations, one after the other, spare the key. -/
def SparesAll (c : Cache κ) (k : κ) : List (Operation κ) → Prop
  | [] => True
  | op :: ops => c.Spares k op ∧ (c.apply op).cache.SparesAll k ops

instance decidableSparesAll (k : κ) :
    (ops : List (Operation κ)) → (c : Cache κ) → Decidable (c.SparesAll k ops)
  | [], _ => inferInstanceAs (Decidable True)
  | _ :: ops, _ => @instDecidableAnd _ _ _ (decidableSparesAll k ops _)

theorem sparesAll_append {k : κ} {ops ops' : List (Operation κ)} :
    c.SparesAll k (ops ++ ops') ↔ c.SparesAll k ops ∧ (c.applyAll ops).SparesAll k ops' := by
  induction ops generalizing c with
  | nil => simp [SparesAll, applyAll]
  | cons op ops ih => simp [SparesAll, ih, applyAll, and_assoc]

end Cache

end RefCache
