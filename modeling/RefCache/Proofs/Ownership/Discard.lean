import RefCache.Proofs.Ownership.Transition

/-!
# What is discarded

Discarding entries takes out what is cached under their keys and makes orphans of them, whoever owns
them: `Transition.Sheds` says so without the invariant on ownership. A trim and an eviction discard what the
policy gives up (`yield_sheds`, `evict_sheds`).
-/

namespace RefCache

universe u v

variable {κ : Type u} [Key κ]

namespace Transition

/-- The rows `out` have left the map of cached entries, and their entries are orphans. -/
structure Sheds (out : List (κ × Sized EntryId)) (t t' : Transition κ) : Prop where
  cached_eq : t'.cache.cached.toList
    = t.cache.cached.toList.filter fun x => decide (x.1 ∉ out.map Prod.fst)
  entries_eq : t'.cache.entries = (out.map (·.2.value)).foldl
    (fun table id => table.update id Entry.markOrphan) t.cache.entries
  limits_eq : t'.cache.limits = t.cache.limits

variable {t : Transition κ}

theorem sheds_nil (t : Transition κ) : Sheds [] t t where
  cached_eq := (List.filter_eq_self.2 fun _ _ => rfl).symm
  entries_eq := rfl
  limits_eq := rfl

theorem Sheds.cons {x : κ × Sized EntryId} {out : List (κ × Sized EntryId)} {t' t'' : Transition κ}
    (h : Sheds [x] t t') (h' : Sheds out t' t'') : Sheds (x :: out) t t'' where
  cached_eq := by
    rw [h'.cached_eq, h.cached_eq, List.filter_filter]
    refine List.filter_congr fun y _ => ?_
    rw [← Bool.decide_and]
    refine decide_eq_decide.2 ?_
    simp only [List.map_cons, List.map_nil, List.mem_cons, List.not_mem_nil, or_false, not_or,
      and_comm]
  entries_eq := by
    rw [h'.entries_eq, h.entries_eq]
    rfl
  limits_eq := h'.limits_eq.trans h.limits_eq

theorem discardOne_sheds {x : κ × Sized EntryId} {e : Entry κ}
    (he : t.cache.entries.get? x.2.value = some e) (hkey : e.key = x.1) :
    Sheds [x] t (t.discardOne x.2.value) := by
  have hdetach := t.cached_detach x.1
  obtain ⟨hentries, hlimits⟩ : (t.detach x.1).2.cache.entries = t.cache.entries ∧
      (t.detach x.1).2.cache.limits = t.cache.limits := by
    unfold detach
    split <;> exact ⟨rfl, rfl⟩
  unfold discardOne
  rw [he]
  dsimp only
  -- what is cached under the key of the entry goes
  rw [hkey]
  refine ⟨?_, ?_, hlimits⟩
  · refine hdetach.trans (List.filter_congr fun y _ => ?_)
    simp
  · show ((t.detach x.1).2.cache.entries).update x.2.value Entry.markOrphan = _
    rw [hentries]
    rfl

/-- Discarding entries takes out the rows of their keys, whether they are cached or not. -/
theorem discard_sheds {out : List (κ × Sized EntryId)} (hrows : ∀ x ∈ out, ∃ e,
    t.cache.entries.get? x.2.value = some e ∧ e.key = x.1) :
    Sheds out t (t.discard (out.map (·.2.value))) := by
  have hfold : ∀ (out : List (κ × Sized EntryId)) (t : Transition κ),
      (∀ x ∈ out, ∃ e, t.cache.entries.get? x.2.value = some e ∧ e.key = x.1) →
      Sheds out t ((out.map (·.2.value)).foldl discardOne t) := by
    intro out
    induction out with
    | nil => exact fun t _ => sheds_nil t
    | cons x rest ih =>
      intro t hrows
      obtain ⟨e, he, hkey⟩ := hrows x List.mem_cons_self
      have hfirst := discardOne_sheds he hkey
      refine hfirst.cons (ih _ fun y hy => ?_)
      -- a mark does not change the key of an entry
      obtain ⟨e', he', hkey'⟩ := hrows y (List.mem_cons_of_mem _ hy)
      rw [hfirst.entries_eq, List.map_singleton, EntryTable.get?_foldl_markOrphan, he']
      split
      · exact ⟨e'.markOrphan, rfl, hkey'⟩
      · exact ⟨e', rfl, hkey'⟩
  unfold discard
  split
  · rename_i hempty
    rw [List.isEmpty_iff, List.map_eq_nil_iff] at hempty
    exact hempty ▸ sheds_nil t
  · have hlogged := hfold out (t.log (.evicted t.cache.policy.name (out.map (·.2.value)).length
      t.cache.policy.count)) hrows
    exact ⟨hlogged.cached_eq, hlogged.entries_eq, hlogged.limits_eq⟩

/-- What neither the log nor a single entry changes stays as it is. -/
theorem view_discard {α : Type v} (view : Transition κ → α) (hlog : ∀ t m, view (t.log m) = view t)
    (hone : ∀ t id, view (t.discardOne id) = view t) (t : Transition κ) (ids : List EntryId) :
    view (t.discard ids) = view t := by
  have hfold : ∀ (ids : List EntryId) (t : Transition κ), view (ids.foldl discardOne t) = view t := by
    intro ids
    induction ids with
    | nil => exact fun t => rfl
    | cons id rest ih => exact fun t => (ih _).trans (hone t id)
  unfold discard
  split
  · rfl
  · exact (hfold ids _).trans (hlog _ _)

theorem policy_discard (t : Transition κ) (ids : List EntryId) :
    (t.discard ids).cache.policy = t.cache.policy := by
  refine view_discard (fun t => t.cache.policy) (fun _ _ => rfl) (fun t id => ?_) t ids
  unfold discardOne detach
  split
  · rfl
  · split <;> rfl

/-- What the policy gives up to keep to its budget, and what is left of it. -/
def evicted (t : Transition κ) : List EntryId × Policy κ :=
  t.cache.policy.evict t.cache.entries.accesses t.cache.queueBudget.1 t.cache.queueBudget.2

theorem evict_eq (t : Transition κ) : t.evict =
    ((t.modify ({ · with policy := t.evicted.2 })).called (.evict t.cache.queueBudget.1
      t.cache.queueBudget.2 (t.cache.entries.keys t.evicted.1))).discard t.evicted.1 :=
  rfl

theorem policy_evict (t : Transition κ) : t.evict.cache.policy = t.evicted.2 := by
  rw [evict_eq, policy_discard]
  rfl

/-- What the policy gives up is discarded. -/
theorem yield_sheds (hrows : ∀ x ∈ t.cache.policy.items, ∃ e,
    t.cache.entries.get? x.2.value = some e ∧ e.key = x.1) {ids : List EntryId} {policy : Policy κ}
    (hyield : t.cache.policy.Yields ids policy) (call : PolicyCall κ) :
    ∃ out, t.cache.policy.items.Perm (out ++ policy.items) ∧
      Sheds out t (((t.modify ({ · with policy := policy })).called call).discard ids) := by
  obtain ⟨out, rfl, hperm⟩ := hyield
  refine ⟨out, hperm, ?_⟩
  let given := (t.modify ({ · with policy := policy })).called call
  have hgiven : ∀ x ∈ out, ∃ e, given.cache.entries.get? x.2.value = some e ∧ e.key = x.1 :=
    fun x hx => hrows x (hperm.mem_iff.2 (List.mem_append_left _ hx))
  have hdiscard := discard_sheds hgiven
  exact ⟨hdiscard.cached_eq, hdiscard.entries_eq, hdiscard.limits_eq⟩

/-- An eviction discards what it takes from the policy. -/
theorem evict_sheds (hrows : ∀ x ∈ t.cache.policy.items, ∃ e,
    t.cache.entries.get? x.2.value = some e ∧ e.key = x.1) :
    ∃ out, t.cache.policy.items.Perm (out ++ t.evict.cache.policy.items) ∧
      Sheds out t t.evict := by
  rw [policy_evict]
  exact yield_sheds hrows (t.cache.policy.evict_yields _ _ _) _

end Transition

end RefCache
