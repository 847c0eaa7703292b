import RefCache.Proofs.Ownership.Basic

/-!
# Ownership in the middle of an operation

What every step of an operation does to the ownership of entries. `Orderly t table base loose` says
that the transition `t` is on its way with

* the entries `loose` cached and idle but not with the policy;
* every orphan without clients kept by somebody, in `base` from before or in `t.detached`;
* a table of entries that is `table` up to the marks left on the entries.

Each step of `RefCache.Cache.Transition` and `RefCache.Cache.Operations` has one lemma here, under
the name of the step, which says how the step changes `table` and `loose`.
-/

namespace RefCache

universe u

namespace Cache

variable {κ : Type u} [Key κ]

/-- Every orphan without clients is kept by somebody else. -/
def KeepsOrphans (c : Cache κ) (keepers : List EntryId) : Prop :=
  ∀ id e, c.entries.get? id = some e → e.orphan = true → e.clients = 0 → id ∈ keepers

/-- It is enough that all entries are kept. -/
theorem keepsOrphans_range (c : Cache κ) : c.KeepsOrphans (List.range c.entries.next) :=
  fun _ _ he _ _ => List.mem_range.2 (c.entries.lt_next_of_get? he)

end Cache

namespace Transition

variable {κ : Type u} [Key κ]

/-- The ownership of entries in the middle of an operation. -/
structure Orderly (t : Transition κ) (table : EntryTable κ) (base : List EntryId)
    (loose : List (κ × Sized EntryId)) : Prop where
  owned : t.cache.OwnedExcept loose
  kept : t.cache.KeepsOrphans (base ++ t.detached)
  marks : table.Ages t.cache.entries

/-! ## What is cached under a key -/

theorem detach_of_none {t : Transition κ} {k : κ} (hget : t.cache.cached.get? k = none) :
    t.detach k = (none, t) := by
  unfold detach
  rw [hget]

theorem detach_of_some {t : Transition κ} {k : κ} {id : EntryId}
    (hget : t.cache.cached.get? k = some id) :
    t.detach k = (some id,
      { t with
        cache := { t.cache with cached := t.cache.cached.erase k }
        detached := t.detached ++ [id] }) := by
  unfold detach
  rw [hget]

theorem unqueue_fst (t : Transition κ) (k : κ) :
    (t.unqueue k).1 = (t.cache.policy.remove k).1 := by
  unfold unqueue
  dsimp only
  split
  · rename_i hnone
    exact hnone.symm
  · rename_i id hsome
    exact hsome.symm

theorem cache_unqueue (t : Transition κ) (k : κ) :
    (t.unqueue k).2.cache = { t.cache with policy := (t.cache.policy.remove k).2 } := by
  unfold unqueue
  dsimp only
  split <;> rfl

/-- Whatever the policy had under a key is no longer exclusive. -/
theorem unqueue_eq (t : Transition κ) (k : κ) :
    t.unqueue k = ((t.cache.policy.remove k).1,
      { t with
        cache := { t.cache with policy := (t.cache.policy.remove k).2 }
        notices := t.notices ++ (t.cache.policy.remove k).1.toList.map (⟨·, false⟩)
        calls := t.calls ++ [.remove (t.cache.policy.remove k).1.isSome] }) := by
  unfold unqueue
  generalize t.cache.policy.remove k = removed
  obtain ⟨found, policy⟩ := removed
  cases found with
  | none => simp [modify, called]
  | some id => simp [modify, called, notify]

theorem entries_detach (t : Transition κ) (k : κ) :
    (t.detach k).2.cache.entries = t.cache.entries := by
  unfold detach
  split <;> rfl

theorem entries_unqueue (t : Transition κ) (k : κ) :
    (t.unqueue k).2.cache.entries = t.cache.entries := by
  rw [cache_unqueue]

/-- Exactly the row of the key leaves the map of cached entries. -/
theorem cached_detach (t : Transition κ) (k : κ) :
    (t.detach k).2.cache.cached.toList = t.cache.cached.toList.filter (·.1 ≠ k) := by
  cases hget : t.cache.cached.get? k with
  | none =>
    rw [detach_of_none hget]
    rw [SizedMap.get?_eq_none_iff, SizedMap.keys_eq] at hget
    refine (List.filter_eq_self.2 fun x hx => ?_).symm
    have hne : x.1 ≠ k := fun heq => hget (heq ▸ List.mem_map_of_mem hx)
    simpa using hne
  | some id =>
    rw [detach_of_some hget]
    exact SizedMap.toList_erase _ k

theorem cached_supersede (t : Transition κ) (k : κ) :
    (t.supersede k).cache.cached.toList = t.cache.cached.toList.filter (·.1 ≠ k) := by
  have hdetach := cached_detach (t.unqueue k).2 k
  have hcached : (t.unqueue k).2.cache.cached = t.cache.cached := by rw [cache_unqueue]
  rw [hcached] at hdetach
  unfold supersede
  dsimp only
  split <;> exact hdetach

theorem not_cached_supersede (t : Transition κ) (k : κ) :
    ∀ x ∈ (t.supersede k).cache.cached.toList, x.1 ≠ k := by
  intro x hx
  rw [cached_supersede, List.mem_filter] at hx
  simpa using hx.2

/-! ## Many entries at once -/

theorem foldl_notify (t : Transition κ) (ids : List EntryId) (exclusive : Bool) :
    ids.foldl (notify · · exclusive) t
      = { t with notices := t.notices ++ ids.map (⟨·, exclusive⟩) } := by
  induction ids generalizing t with
  | nil => simp
  | cons id rest ih => rw [List.foldl_cons, ih, notify, List.map_cons, List.append_assoc]; rfl

theorem foldl_orphan (t : Transition κ) (ids : List EntryId) :
    ids.foldl orphan t
      = { t with cache := { t.cache with
          entries := ids.foldl (fun table id => table.update id Entry.markOrphan) t.cache.entries } } := by
  induction ids generalizing t with
  | nil => rfl
  | cons id rest ih => rw [List.foldl_cons, ih]; rfl

/-- Limits that are not due stay. -/
theorem reload_of_not_due {t : Transition κ} {s : Surroundings} (hdue : t.cache.reloadDue s.now = false) :
    t.reload s = t := by
  unfold reload
  rw [hdue]
  exact if_neg Bool.false_ne_true

theorem policy_reload (t : Transition κ) (s : Surroundings) :
    (t.reload s).cache.policy = t.cache.policy := by
  unfold reload
  split <;> rfl

theorem cached_reload (t : Transition κ) (s : Surroundings) :
    (t.reload s).cache.cached = t.cache.cached := by
  unfold reload
  split <;> rfl

/-- A cached entry that no client has any more goes to the policy. -/
theorem settle_of_idle {t : Transition κ} {id : EntryId} {e : Entry κ}
    (he : t.cache.entries.get? id = some e) (hidle : e.clients = 0 ∧ e.orphan = false) :
    t.settle id = ((t.modify fun c => { c with policy := c.policy.enqueue id e }).called
      (.enqueue e.key e.accesses)).notify id true := by
  unfold settle
  rw [he]
  exact if_pos hidle

/-- An entry with a client stays in use, and an orphan goes nowhere. -/
theorem settle_of_not_idle {t : Transition κ} {id : EntryId} {e : Entry κ}
    (he : t.cache.entries.get? id = some e) (hnot : ¬ (e.clients = 0 ∧ e.orphan = false)) :
    t.settle id = t := by
  unfold settle
  rw [he]
  exact if_neg hnot

theorem settle_of_none {t : Transition κ} {id : EntryId}
    (hnone : t.cache.entries.get? id = none) : t.settle id = t := by
  unfold settle
  rw [hnone]

theorem cached_settle (t : Transition κ) (id : EntryId) :
    (t.settle id).cache.cached = t.cache.cached := by
  unfold settle
  split
  · rfl
  · split <;> rfl

theorem entries_settle (t : Transition κ) (id : EntryId) :
    (t.settle id).cache.entries = t.cache.entries := by
  unfold settle
  split
  · rfl
  · split <;> rfl

theorem entries_reload (t : Transition κ) (s : Surroundings) :
    (t.reload s).cache.entries = t.cache.entries := by
  unfold reload
  split <;> rfl

/-- To be discarded leaves a mark on an entry, and on no other. -/
theorem ages_discardOne (t : Transition κ) (id : EntryId) :
    t.cache.entries.Ages (t.discardOne id).cache.entries := by
  unfold discardOne
  cases t.cache.entries.get? id with
  | none => exact .refl _
  | some e =>
    show t.cache.entries.Ages ((t.detach e.key).2.cache.entries.update id Entry.markOrphan)
    rw [entries_detach]
    exact EntryTable.ages_update _ id Entry.ages_markOrphan

/-- What the two walks of a predicate leave of a cache. -/
theorem cache_removeMatching (t : Transition κ) (p : Predicate κ) :
    (t.removeMatching p).2.2.cache =
      { t.cache with
        policy := (t.cache.policy.removeAll p []).2
        cached := (t.cache.cached.removeAll p (t.cache.policy.askedAfter [])).2
        entries := ((t.cache.cached.removeAll p (t.cache.policy.askedAfter [])).1.map
          Prod.snd).foldl (fun table id => table.update id Entry.markOrphan) t.cache.entries } := by
  unfold removeMatching
  dsimp only
  rw [foldl_notify, foldl_orphan]
  rfl

namespace Orderly

variable {t t' : Transition κ} {table : EntryTable κ} {base : List EntryId}
  {loose loose' : List (κ × Sized EntryId)}

/-! ### Steps that leave cached entries and table alone -/

/-- A step that at most moves entries within the policy, or between the policy and `loose`. -/
theorem congr (h : t.Orderly table base loose) (hcached : t'.cache.cached = t.cache.cached)
    (hentries : t'.cache.entries = t.cache.entries) (hdetached : t'.detached = t.detached)
    (hitems : (loose ++ t.cache.policy.items).Perm (loose' ++ t'.cache.policy.items)) :
    t'.Orderly table base loose' where
  owned := h.owned.congr (by rw [hcached]) (hentries ▸ .refl _) hitems
  kept := by
    unfold Cache.KeepsOrphans
    rw [hentries, hdetached]
    exact h.kept
  marks := hentries ▸ h.marks

theorem notify (h : t.Orderly table base loose) (id : EntryId) (exclusive : Bool) :
    (t.notify id exclusive).Orderly table base loose :=
  h.congr rfl rfl rfl (.refl _)

theorem called (h : t.Orderly table base loose) (call : PolicyCall κ) :
    (t.called call).Orderly table base loose :=
  h.congr rfl rfl rfl (.refl _)

theorem log (h : t.Orderly table base loose) (m : Message) :
    (t.log m).Orderly table base loose :=
  h.congr rfl rfl rfl (.refl _)

theorem reload (h : t.Orderly table base loose) (s : Surroundings) :
    (t.reload s).Orderly table base loose := by
  unfold Transition.reload
  split
  · exact h.congr rfl rfl rfl (.refl _)
  · exact h

theorem miss (h : t.Orderly table base loose) (k : κ) : (t.miss k).Orderly table base loose := by
  refine h.congr rfl rfl rfl ?_
  show (loose ++ t.cache.policy.items).Perm (loose ++ (t.cache.policy.onMiss k).items)
  rw [Policy.items_onMiss]

theorem reject (h : t.Orderly table base loose) (size : Nat) :
    (t.reject size).Orderly table base loose :=
  h.congr rfl rfl rfl (.refl _)

/-- Taking the exclusive entry under a key from the policy leaves it loose. -/
theorem unqueue (h : t.Orderly table base []) (k : κ) :
    ∃ loose, (t.unqueue k).2.Orderly table base loose ∧
      (∀ x ∈ (t.unqueue k).2.cache.policy.items, x.1 ≠ k) ∧
      (((t.unqueue k).1 = none ∧ loose = []) ∨
        ∃ id size, (t.unqueue k).1 = some id ∧ loose = [(k, ⟨id, size⟩)]) := by
  have hitems := t.cache.policy.items_remove k
  have hnokey : ∀ x ∈ (t.cache.policy.remove k).2.items, x.1 ≠ k := by
    intro x hx
    rw [hitems, List.mem_filter] at hx
    simpa using hx.2
  unfold Transition.unqueue
  cases hfound : (t.cache.policy.remove k).1 with
  | none =>
    dsimp only
    rw [hfound]
    refine ⟨[], h.congr rfl rfl rfl ?_, hnokey, .inl ⟨rfl, rfl⟩⟩
    -- no exclusive entry has the key, so the policy is as it was
    have hself : (t.cache.policy.remove k).2.items = t.cache.policy.items := by
      rw [hitems]
      refine List.filter_eq_self.2 fun x hx => ?_
      simpa using (t.cache.policy.remove_eq_none_iff k).1 hfound x hx
    show t.cache.policy.items.Perm (t.cache.policy.remove k).2.items
    rw [hself]
  | some id =>
    dsimp only
    rw [hfound]
    -- the one exclusive row under the key is with the policy no more
    obtain ⟨size, hmem⟩ := t.cache.policy.mem_items_of_remove k id hfound
    refine ⟨[(k, ⟨id, size⟩)], h.congr rfl rfl rfl ?_, hnokey, .inr ⟨id, size, rfl, rfl⟩⟩
    show t.cache.policy.items.Perm ((k, ⟨id, size⟩) :: (t.cache.policy.remove k).2.items)
    rw [hitems]
    exact perm_cons_filter_key h.owned.nodup_item_keys hmem

/-- The exclusive entry under a key gets a new place with the policy, which may count a use. -/
theorem probe (h : t.Orderly table base []) (k : κ) :
    (t.modify fun c =>
      { c with
        policy := (c.policy.probe c.entries k).1
        entries := (c.policy.probe c.entries k).2 }).Orderly table base [] := by
  -- the policy counts a use of the entry at most
  have huses : t.cache.entries.SameButUses (t.cache.policy.probe t.cache.entries k).2 := by
    rcases t.cache.policy.probe_entries t.cache.entries k with heq | ⟨id, heq⟩
    · rw [heq]
      exact .refl _
    · rw [heq]
      exact EntryTable.sameButUses_recordAccess _ id
  have hages : t.cache.entries.Ages (t.cache.policy.probe t.cache.entries k).2 := by
    rcases t.cache.policy.probe_entries t.cache.entries k with heq | ⟨id, heq⟩
    · rw [heq]
      exact .refl _
    · rw [heq]
      exact EntryTable.ages_update _ id Entry.ages_recordAccess
  constructor
  · refine h.owned.congr rfl huses (Policy.items_probe _ _ _ h.owned.nodup_item_keys ?_).symm
    intro x hx
    obtain ⟨e, he, hkey, hsize, _⟩ := h.owned.entry_of_cached x (h.owned.cached_of_item hx)
    exact ⟨e, he, hkey, hsize⟩
  · intro id e he horphan hclients
    obtain ⟨e₀, he₀, heq⟩ := huses.symm.get? he
    obtain ⟨_, _, horphan₀, hclients₀⟩ := Entry.eq_of_withoutUses heq
    exact h.kept id e₀ he₀ (horphan₀.trans horphan) (hclients₀.trans hclients)
  · exact h.marks.trans hages

/-! ### Steps that take entries out -/

/-- The entry cached under a key leaves, once the policy has nothing under the key. -/
theorem expelOne (h : t.Orderly table base loose) {k : κ} {id : EntryId} {size : Nat}
    (hmem : (k, ⟨id, size⟩) ∈ t.cache.cached.toList)
    (hnokey : ∀ x ∈ t.cache.policy.items, x.1 ≠ k) :
    ((t.detach k).2.orphan id).Orderly table base (loose.filter (·.1 ≠ k)) := by
  rw [detach_of_some ((t.cache.cached.get?_eq_some_iff k id).2 ⟨size, hmem⟩)]
  -- exactly one entry is marked
  have hget? : ∀ j, Register.get? (t.cache.entries.update id Entry.markOrphan) j
      = if j ∈ [id] then (t.cache.entries.get? j).map Entry.markOrphan
        else t.cache.entries.get? j := by
    intro j
    rw [Register.get?_update]
    by_cases hj : id = j
    · subst hj
      rw [if_pos rfl, if_pos (List.mem_singleton_self id)]
    · rw [if_neg hj, if_neg fun hmem => hj (List.mem_singleton.1 hmem).symm]
  constructor
  · refine h.owned.expel (fun k' => k' = k) [id] ?_ ?_ hget? ?_
    · show (t.cache.cached.erase k).toList = _
      rw [SizedMap.toList_erase]
      exact List.filter_congr fun x _ => by simp
    · intro j
      rw [List.mem_singleton]
      constructor
      · rintro rfl
        exact ⟨_, hmem, decide_eq_true rfl, rfl⟩
      · rintro ⟨x, hx, hkey, rfl⟩
        have hx' : (k, x.2) ∈ t.cache.cached.toList := of_decide_eq_true hkey ▸ hx
        rw [t.cache.cached.eq_of_mem_toList hx' hmem]
    · -- the policy has nothing under the key, so it has nothing to let go of
      have hself : t.cache.policy.items.filter (fun x => !decide (x.1 = k)) = t.cache.policy.items :=
        List.filter_eq_self.2 fun x hx => by simpa using hnokey x hx
      rw [List.filter_append, hself]
      simp only [ne_eq, decide_not]
      exact .refl _
  · -- the one orphan that is new was just detached
    intro j e he horphan hclients
    change Register.get? (t.cache.entries.update id Entry.markOrphan) j = some e at he
    show j ∈ base ++ (t.detached ++ [id])
    rw [hget?] at he
    rw [← List.append_assoc]
    split at he
    · rename_i hj
      exact List.mem_append_right _ hj
    · exact List.mem_append_left _ (h.kept j e he horphan hclients)
  · exact h.marks.trans (EntryTable.ages_update _ _ Entry.ages_markOrphan)

/-- Whatever was cached under a key is out of the way, exclusive or not. -/
theorem supersede (h : t.Orderly table base []) (k : κ) :
    (t.supersede k).Orderly table base [] := by
  obtain ⟨loose, hunqueue, hnokey, hloose⟩ := h.unqueue k
  unfold Transition.supersede
  generalize (t.unqueue k).2 = t' at *
  cases hget : t'.cache.cached.get? k with
  | none =>
    rw [detach_of_none hget]
    rw [SizedMap.get?_eq_none_iff, SizedMap.keys_eq] at hget
    -- what the policy gave away under the key would still be cached
    rcases hloose with ⟨_, rfl⟩ | ⟨id, size, _, rfl⟩
    · exact hunqueue
    · have hmem := (hunqueue.owned.mem_idle (List.mem_append_left _ (List.mem_singleton_self _))).1
      exact absurd (List.mem_map_of_mem hmem) hget
  | some id =>
    obtain ⟨size, hmem⟩ := (t'.cache.cached.get?_eq_some_iff k id).1 hget
    have hexpel := hunqueue.expelOne hmem hnokey
    -- what the policy gave away under the key is what leaves the map
    have hnil : loose.filter (·.1 ≠ k) = [] := by
      rcases hloose with ⟨_, rfl⟩ | ⟨id, size, _, rfl⟩
      · rfl
      · simp
    rw [hnil] at hexpel
    rw [detach_of_some hget] at hexpel ⊢
    exact hexpel

/-- The first of the loose entries is discarded. -/
theorem discardOne {x : κ × Sized EntryId} (h : t.Orderly table base (x :: loose)) :
    (t.discardOne x.2.value).Orderly table base loose := by
  have hmem := (h.owned.mem_idle (List.mem_append_left _ List.mem_cons_self)).1
  obtain ⟨e, he, hkey, _⟩ := h.owned.entry_of_cached x hmem
  have hnodup := h.owned.nodup_keys
  rw [List.cons_append, List.map_cons, List.nodup_cons] at hnodup
  -- no other row has the key, loose or exclusive
  have hothers : ∀ y ∈ loose ++ t.cache.policy.items, y.1 ≠ x.1 :=
    fun y hy heq => hnodup.1 (heq ▸ List.mem_map_of_mem hy)
  have hexpel := h.expelOne hmem fun y hy => hothers y (List.mem_append_right _ hy)
  have hrest : (x :: loose).filter (·.1 ≠ x.1) = loose := by
    rw [List.filter_cons_of_neg (by simp)]
    exact List.filter_eq_self.2 fun y hy => by simpa using hothers y (List.mem_append_left _ hy)
  rw [hrest] at hexpel
  unfold Transition.discardOne
  rw [he]
  dsimp only
  rw [hkey]
  exact hexpel.congr rfl rfl rfl (.refl _)

/-- All that is loose is discarded. -/
theorem discard (h : t.Orderly table base loose) :
    (t.discard (loose.map (·.2.value))).Orderly table base [] := by
  have hfold : ∀ (out : List (κ × Sized EntryId)) (t : Transition κ), t.Orderly table base out →
      ((out.map (·.2.value)).foldl Transition.discardOne t).Orderly table base [] := by
    intro out
    induction out with
    | nil => exact fun t ht => ht
    | cons x rest ih => exact fun t ht => ih _ ht.discardOne
  unfold Transition.discard
  split
  · rename_i hempty
    rw [List.isEmpty_iff, List.map_eq_nil_iff] at hempty
    exact hempty ▸ h
  · exact hfold loose _ (h.log _)

/-- What a policy yields is loose until it is discarded. -/
theorem loosen (h : t.Orderly table base []) {ids : List EntryId} {policy : Policy κ}
    (hyield : t.cache.policy.Yields ids policy) (call : PolicyCall κ) :
    ∃ out : List (κ × Sized EntryId), ids = out.map (·.2.value) ∧
      ((t.modify ({ · with policy := policy })).called call).Orderly table base out := by
  obtain ⟨out, hout, hperm⟩ := hyield
  exact ⟨out, hout, h.congr rfl rfl rfl hperm⟩

theorem yield (h : t.Orderly table base []) {ids : List EntryId} {policy : Policy κ}
    (hyield : t.cache.policy.Yields ids policy) (call : PolicyCall κ) :
    (((t.modify ({ · with policy := policy })).called call).discard ids).Orderly table base [] := by
  obtain ⟨out, rfl, hloose⟩ := h.loosen hyield call
  exact hloose.discard

theorem evict (h : t.Orderly table base []) : t.evict.Orderly table base [] :=
  h.yield (t.cache.policy.evict_yields _ _ _) _

/-- A predicate that looks at the key alone takes the same keys from the policy and from the map of
cached entries. -/
theorem removeMatching (h : t.Orderly table base []) {p : Predicate κ} (hp : p.KeyDetermined) :
    (t.removeMatching p).2.2.Orderly table base [] := by
  -- both walks take the keys that `gone` says
  let gone := p.answer []
  let ids := (t.cache.cached.pairs.filter fun x => gone x.1).map Prod.snd
  obtain ⟨hremoved, hcached⟩ := t.cache.cached.removeAll_of_keyDetermined hp
    (t.cache.policy.askedAfter [])
  have hitems := t.cache.policy.items_removeAll_of_keyDetermined hp [] h.owned.nodup_item_keys
  have hids : ((t.cache.cached.removeAll p (t.cache.policy.askedAfter [])).1.map Prod.snd) = ids := by
    rw [hremoved]
  unfold Transition.removeMatching
  dsimp only
  rw [foldl_notify, foldl_orphan, hids]
  constructor
  · refine h.owned.expel gone ids hcached ?_ (EntryTable.get?_foldl_markOrphan _ ids) ?_
    · intro id
      simp only [ids, SizedMap.pairs, List.mem_map, List.mem_filter]
      constructor
      · rintro ⟨_, ⟨⟨x, hx, rfl⟩, hgone⟩, rfl⟩
        exact ⟨x, hx, hgone, rfl⟩
      · rintro ⟨x, hx, hgone, rfl⟩
        exact ⟨_, ⟨⟨x, hx, rfl⟩, hgone⟩, rfl⟩
    · exact hitems ▸ .refl _
  · -- an orphan that is new is among the rows taken out, and these were detached
    intro j e he horphan hclients
    change Register.get? (ids.foldl _ t.cache.entries) j = some e at he
    rw [EntryTable.get?_foldl_markOrphan] at he
    show j ∈ base ++ (t.detached ++ ids)
    rw [← List.append_assoc]
    split at he
    · rename_i hj
      exact List.mem_append_right _ hj
    · exact List.mem_append_left _ (h.kept j e he horphan hclients)
  · exact h.marks.trans (EntryTable.ages_foldl_markOrphan _ ids)

/-! ### Steps that bring entries in -/

/-- An entry is handed out, together with all that is loose. -/
theorem handOut (h : t.Orderly table base loose) {k : κ} {id : EntryId} {size : Nat}
    (hmem : (k, ⟨id, size⟩) ∈ t.cache.cached.toList)
    (hnokey : ∀ x ∈ t.cache.policy.items, x.1 ≠ k)
    (hloose : ∀ x ∈ loose, x.2.value = id) :
    (t.handOut id).Orderly (table.update id Entry.addClient) base [] := by
  obtain ⟨e, he, _⟩ := h.owned.entry_of_cached _ hmem
  constructor
  · refine h.owned.update he (fun e => e.addClient.recordAccess) rfl rfl rfl rfl rfl ?_
    -- the entry that is handed out has a client from now on
    have hidle : ∀ x ∈ t.cache.cached.toList,
        (t.handOut id).cache.idle x = (t.cache.idle x && x.2.value ≠ id) := by
      intro x _
      rw [Cache.idle, Cache.idle]
      show decide (Register.readout (t.cache.entries.update id _) Entry.clients x.2.value = 0) = _
      rw [Register.readout_update _ he]
      by_cases hid : id = x.2.value
      · rw [if_pos hid]
        simp [Entry.addClient, Entry.recordAccess, hid]
      · have hid' : x.2.value ≠ id := Ne.symm hid
        rw [if_neg hid, decide_eq_true hid', Bool.and_true]
        rfl
    rw [List.filter_congr hidle]
    have hsplit : t.cache.cached.toList.filter (fun x => t.cache.idle x && x.2.value ≠ id)
        = (t.cache.cached.toList.filter t.cache.idle).filter (·.2.value ≠ id) := by
      rw [List.filter_filter]
      exact List.filter_congr fun x _ => Bool.and_comm _ _
    have hnil : loose.filter (·.2.value ≠ id) = [] :=
      List.filter_eq_nil_iff.2 fun x hx => by simpa using hloose x hx
    -- an exclusive row with this entry would have its key
    have hself : t.cache.policy.items.filter (·.2.value ≠ id) = t.cache.policy.items := by
      refine List.filter_eq_self.2 fun x hx => ?_
      have hne : x.2.value ≠ id := by
        intro hid
        have heq := h.owned.eq_of_same_entry (h.owned.cached_of_item hx) hmem hid
        exact hnokey x hx (by rw [heq])
      simpa using hne
    have hperm := h.owned.idle_perm.filter (·.2.value ≠ id)
    rw [List.filter_append, hnil, hself] at hperm
    rw [hsplit]
    exact hperm
  · -- with a client the entry is no orphan that nobody holds
    intro j e' he' horphan hclients
    change Register.get? (t.cache.entries.update id _) j = some e' at he'
    rw [Register.get?_update] at he'
    split at he'
    · obtain ⟨e₀, _, rfl⟩ := Option.map_eq_some_iff.1 he'
      exact absurd hclients (Nat.succ_ne_zero e₀.clients)
    · exact h.kept j e' he' horphan hclients
  · exact h.marks.update id fun e e' hage => hage.addClient.trans (Entry.ages_recordAccess _)

/-- What is cached under a key answers a request, once the policy has nothing under the key. -/
theorem hit (h : t.Orderly table base loose) {k : κ} {id : EntryId}
    (hget : t.cache.cached.get? k = some id) (hnokey : ∀ x ∈ t.cache.policy.items, x.1 ≠ k)
    (hloose : ∀ x ∈ loose, x.1 = k) :
    (t.hit id).Orderly (table.update id Entry.addClient) base [] := by
  obtain ⟨size, hmem⟩ := (t.cache.cached.get?_eq_some_iff k id).1 hget
  have hcounted : (t.modify fun c =>
      { c with counters := c.counters.recordHit (c.entries.size id) }).Orderly table base loose :=
    h.congr rfl rfl rfl (.refl _)
  refine hcounted.handOut hmem hnokey fun x hx => ?_
  have hx' : (k, x.2) ∈ t.cache.cached.toList :=
    hloose x hx ▸ (h.owned.mem_idle (List.mem_append_left _ hx)).1
  rw [t.cache.cached.eq_of_mem_toList hx' hmem]

/-- A value is taken in under a key that is not cached, and handed out at once. -/
theorem accept (h : t.Orderly table base []) {k : κ}
    (hnew : ∀ x ∈ t.cache.cached.toList, x.1 ≠ k) (value : ValueId) (size : Nat)
    (observer : Option String) :
    (t.accept k value size observer).2.Orderly
      (table.enroll { key := k, value := value, size := size, observer := observer }) base [] := by
  let e₀ : Entry κ := { key := k, value := value, size := size, observer := observer }
  -- the uses that the policy remembers of the key are marks
  let e : Entry κ :=
    { key := k, value := value, size := size, observer := observer,
      accesses := t.cache.policy.initialAccesses k }
  let t' := (t.called (.initialAccesses e.accesses)).modify fun c =>
    { c with
      entries := c.entries.add e
      cached := c.cached.put k t.cache.entries.next size
      counters := c.counters.recordInsertion size }
  have hcached : t'.cache.cached.toList
      = t.cache.cached.toList ++ [(k, ⟨t.cache.entries.next, size⟩)] :=
    t.cache.cached.toList_put_of_new hnew t.cache.entries.next size
  -- the entry comes in loose, and the reference handed out makes it one in use
  have hin : t'.Orderly (table.add e₀) base [(k, ⟨t.cache.entries.next, size⟩)] := by
    refine ⟨h.owned.bringIn (e := e) rfl rfl hcached rfl rfl, ?_,
      h.marks.add ⟨rfl, id, Nat.zero_le _⟩⟩
    intro j e' he' horphan hclients
    change Register.get? (t.cache.entries.add e) j = some e' at he'
    rw [Register.get?_add] at he'
    split at he'
    · cases he'
      exact nomatch horphan
    · exact h.kept j e' he' horphan hclients
  rw [EntryTable.enroll, ← h.marks.next_eq]
  refine hin.handOut (hcached ▸ List.mem_append_right _ (List.mem_singleton_self _)) ?_ ?_
  · intro x hx
    exact hnew x (h.owned.cached_of_item hx)
  · intro x hx
    rw [List.mem_singleton.1 hx]

/-! ### Letting go -/

/-- Only the entry that a client lets go of can become idle by it. -/
theorem idle_dropClient {id : EntryId} {e : Entry κ} (he : t.cache.entries.get? id = some e)
    (x : κ × Sized EntryId) : (t.updateEntry id Entry.dropClient).cache.idle x
      = if id = x.2.value then decide (e.dropClient.clients = 0) else t.cache.idle x := by
  show decide (Register.readout (t.cache.entries.update id Entry.dropClient) _ _ = 0) = _
  rw [Register.readout_update _ he]
  split <;> rfl

/-- An entry with clients is not idle. -/
theorem not_idle {id : EntryId} {e : Entry κ} (he : t.cache.entries.get? id = some e)
    (hclients : 0 < e.clients) {x : κ × Sized EntryId} (hid : id = x.2.value) :
    t.cache.idle x = false := by
  rw [Cache.idle, EntryTable.clients_of_get? (hid ▸ he)]
  exact decide_eq_false (Nat.ne_of_gt hclients)

/-- When a client lets go, the ownership of entries hangs on which of them are idle then. -/
theorem dropClient (h : t.Orderly table base []) {id : EntryId} {e : Entry κ}
    (he : t.cache.entries.get? id = some e) (hbase : id ∈ base)
    (hidle : (t.cache.cached.toList.filter (t.updateEntry id Entry.dropClient).cache.idle).Perm
      (loose ++ t.cache.policy.items)) :
    (t.updateEntry id Entry.dropClient).Orderly (table.update id Entry.dropClient) base loose where
  owned := h.owned.update he Entry.dropClient rfl rfl rfl rfl rfl hidle
  kept := by
    -- the entry may be left as an orphan that nobody holds, since it is in `base`
    intro j e' he' horphan hclients'
    change Register.get? (t.cache.entries.update id Entry.dropClient) j = some e' at he'
    rw [Register.get?_update] at he'
    split at he'
    · rename_i hid
      exact List.mem_append_left _ (hid ▸ hbase)
    · exact h.kept j e' he' horphan hclients'
  marks := h.marks.update id fun _ _ hage => hage.dropClient

/-- The row of a cached entry becomes idle when its last client lets go. -/
theorem idle_last (h : t.Orderly table base []) {id : EntryId} {e : Entry κ}
    (he : t.cache.entries.get? id = some e) (hclients : 0 < e.clients)
    (hlast : e.dropClient.clients = 0) (hmem : (e.key, ⟨id, e.size⟩) ∈ t.cache.cached.toList) :
    (t.cache.cached.toList.filter (t.updateEntry id Entry.dropClient).cache.idle).Perm
      ((e.key, ⟨id, e.size⟩) :: t.cache.policy.items) := by
  have hin : (e.key, ⟨id, e.size⟩) ∈ t.cache.cached.toList.filter
      (t.updateEntry id Entry.dropClient).cache.idle := by
    refine List.mem_filter.2 ⟨hmem, ?_⟩
    rw [idle_dropClient he, if_pos rfl]
    exact decide_eq_true hlast
  -- the other idle rows are those that were idle before
  have hrest : (t.cache.cached.toList.filter
        (t.updateEntry id Entry.dropClient).cache.idle).filter (·.1 ≠ e.key)
      = t.cache.cached.toList.filter t.cache.idle := by
    rw [List.filter_filter]
    refine List.filter_congr fun x hx => ?_
    rw [idle_dropClient he]
    by_cases hid : id = x.2.value
    · rw [not_idle he hclients hid, h.owned.eq_of_same_entry hx hmem hid.symm]
      simp
    · have hkey : x.1 ≠ e.key := by
        intro hkey
        have hx' : (e.key, x.2) ∈ t.cache.cached.toList := hkey ▸ hx
        exact hid (by rw [t.cache.cached.eq_of_mem_toList hx' hmem])
      rw [if_neg hid]
      simp [hkey]
  have hnodup : ((t.cache.cached.toList.filter
      (t.updateEntry id Entry.dropClient).cache.idle).map Prod.fst).Nodup :=
    t.cache.cached.nodup_keys.sublist (List.filter_sublist.map _)
  have hperm := perm_cons_filter_key hnodup hin
  rw [hrest] at hperm
  exact hperm.trans (h.owned.idle_perm.cons _)

/-- As long as there are other clients, or the entry is an orphan, no row becomes idle. -/
theorem idle_more (h : t.Orderly table base []) {id : EntryId} {e : Entry κ}
    (he : t.cache.entries.get? id = some e) (hclients : 0 < e.clients)
    (hnot : ¬ (e.dropClient.clients = 0 ∧ e.orphan = false)) :
    t.cache.cached.toList.filter (t.updateEntry id Entry.dropClient).cache.idle
      = t.cache.cached.toList.filter t.cache.idle := by
  refine List.filter_congr fun x hx => ?_
  rw [idle_dropClient he]
  split
  · -- a cached entry is no orphan, so it has clients left
    rename_i hid
    obtain ⟨e', he', _, _, horphan⟩ := h.owned.entry_of_cached x hx
    rw [← hid, he, Option.some.injEq] at he'
    subst he'
    rw [not_idle he hclients hid]
    exact decide_eq_false fun hzero => hnot ⟨hzero, horphan⟩
  · rfl

/-- A client lets go of its entry, and the entry goes to the policy if it was the last client. -/
theorem release (h : t.Orderly table base []) {id : EntryId} {e : Entry κ}
    (he : t.cache.entries.get? id = some e) (hclients : 0 < e.clients) (hbase : id ∈ base) :
    ((t.updateEntry id Entry.dropClient).settle id).Orderly
      (table.update id Entry.dropClient) base [] := by
  have hget : (t.updateEntry id Entry.dropClient).cache.entries.get? id = some e.dropClient := by
    show Register.get? (t.cache.entries.update id Entry.dropClient) id = _
    rw [Register.get?_update, if_pos rfl, he, Option.map_some]
  by_cases hlast : e.dropClient.clients = 0 ∧ e.dropClient.orphan = false
  · -- the last client of a cached entry: its row becomes loose, and goes to the policy
    rw [settle_of_idle hget hlast]
    have hmem := h.owned.cached_of_entry id e he hlast.2
    have hloose : (t.updateEntry id Entry.dropClient).Orderly
        (table.update id Entry.dropClient) base [(e.key, ⟨id, e.size⟩)] :=
      h.dropClient he hbase (h.idle_last he hclients hlast.1 hmem)
    have hnew := h.owned.not_item_of_held he hclients hmem
    exact hloose.congr rfl rfl rfl (t.cache.policy.items_enqueue id e.dropClient hnew).symm
  · rw [settle_of_not_idle hget hlast]
    refine h.dropClient he hbase ?_
    rw [h.idle_more he hclients hlast]
    exact h.owned.idle_perm

end Orderly

end Transition

end RefCache
