import RefCache.Proofs.Ownership.Discard
import RefCache.Proofs.Ownership.Pools
import RefCache.Proofs.Ownership.Trace

/-!
# What a cache has forgotten makes no difference

Between operations a cache forgets orphans that nobody holds. `Forgets` relates a table, a cache or a
transition to one that lacks some of them and is the same otherwise. Every step of a transition keeps
to that relation, as long as the poorer table has the entries that the step looks up.
-/

namespace RefCache

universe u

variable {κ : Type u}

/-! ## Tables -/

namespace EntryTable

/-- The second table lacks some orphans without clients. -/
structure Forgets (t t' : EntryTable κ) : Prop where
  next_eq : t'.next = t.next
  kept : ∀ id e, t'.get? id = some e → t.get? id = some e
  lost : ∀ id e, t.get? id = some e → t'.get? id = none → e.orphan = true ∧ e.clients = 0

variable {t t' t'' : EntryTable κ}

theorem Forgets.refl (t : EntryTable κ) : t.Forgets t where
  next_eq := rfl
  kept := fun _ _ he => he
  lost := fun _ _ he hnone => nomatch he.symm.trans hnone

theorem Forgets.trans (h : t.Forgets t') (h' : t'.Forgets t'') : t.Forgets t'' where
  next_eq := h'.next_eq.trans h.next_eq
  kept := fun id e he => h.kept id e (h'.kept id e he)
  lost := by
    intro id e he hnone
    cases he' : t'.get? id with
    | none => exact h.lost id e he he'
    | some e' =>
      -- the row went on the second way
      have heq : e' = e := Option.some.inj ((h.kept id e' he').symm.trans he)
      exact heq ▸ h'.lost id e' he' hnone

/-- The same change of a row that the second table may lack: it must leave an orphan that nobody holds
as one. -/
theorem Forgets.update (h : t.Forgets t') (id : EntryId) {change : Entry κ → Entry κ}
    (hchange : ∀ e, t.get? id = some e → t'.get? id = none →
      (change e).orphan = true ∧ (change e).clients = 0) :
    EntryTable.Forgets (t.update id change) (t'.update id change) where
  next_eq := by rw [Register.next_update, Register.next_update, h.next_eq]
  kept := by
    intro j e he
    rw [Register.get?_update] at he ⊢
    -- a row of the second table is one of the first, before the change and after it
    split
    · rename_i hj
      rw [if_pos hj] at he
      obtain ⟨e₀, he₀, rfl⟩ := Option.map_eq_some_iff.1 he
      rw [h.kept id e₀ he₀, Option.map_some]
    · rename_i hj
      rw [if_neg hj] at he
      exact h.kept j e he
  lost := by
    intro j e he hnone
    rw [Register.get?_update] at he hnone
    -- where the second table has no row, the first one had an orphan that nobody holds
    split at he
    · rename_i hj
      rw [if_pos hj] at hnone
      obtain ⟨e₀, he₀, rfl⟩ := Option.map_eq_some_iff.1 he
      exact hchange e₀ he₀ (Option.map_eq_none_iff.1 hnone)
    · rename_i hj
      rw [if_neg hj] at hnone
      exact h.lost j e he hnone

/-- A row that both tables have may be changed in any way. -/
theorem Forgets.update_of_mem (h : t.Forgets t') {id : EntryId} {e : Entry κ}
    (he : t'.get? id = some e) (change : Entry κ → Entry κ) :
    EntryTable.Forgets (t.update id change) (t'.update id change) :=
  h.update id fun _ _ hnone => nomatch he.symm.trans hnone

theorem Forgets.markOrphan (h : t.Forgets t') (id : EntryId) :
    EntryTable.Forgets (t.update id Entry.markOrphan) (t'.update id Entry.markOrphan) :=
  h.update id fun e he hnone => ⟨rfl, (h.lost id e he hnone).2⟩

theorem Forgets.add (h : t.Forgets t') (e : Entry κ) : EntryTable.Forgets (t.add e) (t'.add e) where
  next_eq := by rw [Register.next_add, Register.next_add, h.next_eq]
  kept := by
    intro id e' he'
    rw [Register.get?_add, h.next_eq] at he'
    rw [Register.get?_add]
    split
    · rename_i hid
      rwa [if_pos hid] at he'
    · rename_i hid
      rw [if_neg hid] at he'
      exact h.kept id e' he'
  -- the new row is in both tables, so it is not among the lost
  lost := by
    intro id e' he' hnone
    rw [Register.get?_add] at he' hnone
    rw [h.next_eq] at hnone
    split at he'
    · rename_i hid
      rw [if_pos hid] at hnone
      exact nomatch hnone
    · rename_i hid
      rw [if_neg hid] at hnone
      exact h.lost id e' he' hnone

theorem forgets_remove {id : EntryId}
    (hgone : ∀ e, t.get? id = some e → e.orphan = true ∧ e.clients = 0) :
    EntryTable.Forgets t (t.remove id) where
  next_eq := Register.next_remove t id
  kept := by
    intro j e he
    rw [Register.get?_remove] at he
    split at he
    · exact nomatch he
    · exact he
  lost := by
    intro j e he hnone
    rw [Register.get?_remove] at hnone
    split at hnone
    · rename_i hj
      exact hgone e (hj ▸ he)
    · exact nomatch he.symm.trans hnone

/-- Of entries that both tables have, the keys are the same. -/
theorem Forgets.keys_eq (h : t.Forgets t') {ids : List EntryId}
    (hids : ∀ id ∈ ids, ∃ e, t'.get? id = some e) : t'.keys ids = t.keys ids := by
  induction ids with
  | nil => rfl
  | cons id rest ih =>
    obtain ⟨e, he⟩ := hids id List.mem_cons_self
    have hrest := ih fun j hj => hids j (List.mem_cons_of_mem _ hj)
    rw [keys, keys] at hrest ⊢
    rw [List.filterMap_cons, List.filterMap_cons, he, h.kept id e he, hrest]

end EntryTable

/-! ## Evicting by the same uses -/

variable [Key κ]

/-- The loop asks for the uses of the entries it takes out, and of no others. -/
theorem Pool.trimLoop_congr {accesses accesses' : EntryId → Nat} (maxCount maxSize fuel : Nat)
    (p : Pool κ) (h : ∀ x ∈ p.entries.toList, accesses x.2.value = accesses' x.2.value) :
    trimLoop accesses maxCount maxSize fuel p = trimLoop accesses' maxCount maxSize fuel p := by
  induction fuel generalizing p with
  | zero => rfl
  | succ fuel ih =>
    unfold trimLoop
    split
    · rw [SizedMap.popOldest?_eq]
      cases hl : p.entries.toList with
      | nil => rfl
      | cons x rest =>
        -- only the row at the front is asked about, and the others are left to the rest of the loop
        have hrest := p.entries.toList_erase_head hl
        rw [hl] at h
        simp only [List.head?_cons, Option.map_some, h x List.mem_cons_self]
        rw [ih]
        intro y hy
        change y ∈ (p.entries.erase x.1).toList at hy
        rw [hrest] at hy
        exact h y (List.mem_cons_of_mem _ hy)
    · rfl

namespace Policy

/-- All pools of a policy are trimmed alike by uses that agree on the exclusive entries. -/
private theorem trimTo_congr {p : Policy κ} {accesses accesses' : EntryId → Nat}
    (h : ∀ id ∈ p.ids, accesses id = accesses' id) {q : Pool κ} (hq : q ∈ p.pools)
    (maxCount maxSize : Nat) :
    q.trimTo accesses maxCount maxSize = q.trimTo accesses' maxCount maxSize :=
  Pool.trimLoop_congr maxCount maxSize q.count q fun x hx =>
    h x.2.value (List.mem_flatMap.2 ⟨q, hq, List.mem_map_of_mem (f := (·.2.value)) hx⟩)

theorem evict_congr {p : Policy κ} {accesses accesses' : EntryId → Nat}
    (h : ∀ id ∈ p.ids, accesses id = accesses' id) (maxCount maxSize : Nat) :
    p.evict accesses maxCount maxSize = p.evict accesses' maxCount maxSize := by
  cases p with
  | lru queue => simp only [evict, trimTo_congr h (q := queue) (by simp [pools])]
  | adaptive a =>
    simp only [evict, Adaptive.evict, trimTo_congr h (q := a.lfu) (by simp [pools]),
      trimTo_congr h (q := a.mfu) (by simp [pools])]

theorem trim_congr {p : Policy κ} {accesses accesses' : EntryId → Nat}
    (h : ∀ id ∈ p.ids, accesses id = accesses' id) (target : Nat) :
    p.trim accesses target = p.trim accesses' target := by
  cases p with
  | lru queue => simp only [trim, trimTo_congr h (q := queue) (by simp [pools])]
  | adaptive a =>
    simp only [trim, Adaptive.trim, trimTo_congr h (q := a.lfu) (by simp [pools]),
      trimTo_congr h (q := a.mfu) (by simp [pools])]

end Policy

/-! ## Caches -/

namespace Cache

/-- The second cache has forgotten some orphans without clients, and is the same otherwise. -/
structure Forgets (c c' : Cache κ) : Prop where
  cached_eq : c'.cached = c.cached
  policy_eq : c'.policy = c.policy
  limits_eq : c'.limits = c.limits
  lastCheck_eq : c'.lastCheck = c.lastCheck
  counters_eq : c'.counters = c.counters
  entries : c.entries.Forgets c'.entries

/-- The cache with another table of entries. -/
def withTable (c : Cache κ) (table : EntryTable κ) : Cache κ :=
  { c with entries := table }

theorem forgets_withTable {c : Cache κ} {table : EntryTable κ} (h : c.entries.Forgets table) :
    c.Forgets (c.withTable table) :=
  ⟨rfl, rfl, rfl, rfl, rfl, h⟩

namespace Forgets

variable {c c' c'' : Cache κ}

theorem refl (c : Cache κ) : c.Forgets c :=
  ⟨rfl, rfl, rfl, rfl, rfl, .refl _⟩

theorem trans (h : c.Forgets c') (h' : c'.Forgets c'') : c.Forgets c'' :=
  ⟨h'.cached_eq.trans h.cached_eq, h'.policy_eq.trans h.policy_eq, h'.limits_eq.trans h.limits_eq,
    h'.lastCheck_eq.trans h.lastCheck_eq, h'.counters_eq.trans h.counters_eq,
    h.entries.trans h'.entries⟩

theorem eq_withTable (h : c.Forgets c') : c' = c.withTable c'.entries := by
  obtain ⟨hcached, hpolicy, hlimits, hlastCheck, hcounters, _⟩ := h
  cases c'
  cases hcached
  cases hpolicy
  cases hlimits
  cases hlastCheck
  cases hcounters
  rfl

/-- Forgetting concerns nobody's clients. -/
theorem clients_eq (h : c.Forgets c') (id : EntryId) :
    c'.entries.clients id = c.entries.clients id := by
  cases hlater : c'.entries.get? id with
  | some e => rw [EntryTable.clients_of_get? hlater, EntryTable.clients_of_get? (h.entries.kept id e hlater)]
  | none =>
    have hzero : c'.entries.clients id = 0 := Register.readout_of_none _ Entry.clients hlater
    cases hearlier : c.entries.get? id with
    | some e => rw [hzero, EntryTable.clients_of_get? hearlier, (h.entries.lost id e hearlier hlater).2]
    | none => rw [hzero, EntryTable.clients, Register.readout_of_none _ Entry.clients hearlier]

/-- What is forgotten is owned by nobody. -/
theorem owned (h : c.Forgets c') (hc : c.Owned) : c'.Owned where
  entry_of_cached := by
    intro x hx
    rw [h.cached_eq] at hx
    obtain ⟨e, he, hkey, hsize, horphan⟩ := hc.entry_of_cached x hx
    cases hlater : c'.entries.get? x.2.value with
    | none =>
      -- only orphans are lost
      rw [(h.entries.lost _ e he hlater).1] at horphan
      exact nomatch horphan
    | some e' =>
      obtain rfl := Option.some.inj (he.symm.trans (h.entries.kept _ e' hlater))
      exact ⟨e, rfl, hkey, hsize, horphan⟩
  cached_of_entry := by
    intro id e he horphan
    rw [h.cached_eq]
    exact hc.cached_of_entry id e (h.entries.kept id e he) horphan
  -- forgotten rows have no clients, and neither has a number without a row
  idle_perm := by
    have hidle : c'.idle = c.idle := by
      funext x
      simp only [idle, h.clients_eq]
    rw [h.cached_eq, h.policy_eq, hidle]
    exact hc.idle_perm

end Forgets

/-- The table knows every exclusive entry. -/
def KnowsExclusive (c : Cache κ) : Prop :=
  ∀ id ∈ c.policy.ids, ∃ e, c.entries.get? id = some e

theorem OwnedExcept.knowsExclusive {c : Cache κ} {loose : List (κ × Sized EntryId)}
    (h : c.OwnedExcept loose) : c.KnowsExclusive := by
  intro id hid
  rw [Policy.ids_eq_map_items] at hid
  obtain ⟨x, hx, rfl⟩ := List.mem_map.1 hid
  obtain ⟨e, he, _⟩ := h.entry_of_cached x (h.cached_of_item hx)
  exact ⟨e, he⟩

end Cache

/-! ## One step at a time -/

namespace Transition

/-- The transition with another table of entries. -/
def withTable (t : Transition κ) (table : EntryTable κ) : Transition κ :=
  { t with cache := t.cache.withTable table }

/-- The second transition is that of a cache that has forgotten some orphans without clients. -/
def Forgets (t t' : Transition κ) : Prop :=
  ∃ table, t.cache.entries.Forgets table ∧ t' = t.withTable table

theorem detach_withTable (t : Transition κ) (table : EntryTable κ) (k : κ) :
    (t.withTable table).detach k = ((t.detach k).1, (t.detach k).2.withTable table) := by
  cases hget : t.cache.cached.get? k with
  | none => rw [detach_of_none hget, detach_of_none (t := t.withTable table) hget]
  | some id =>
    rw [detach_of_some hget, detach_of_some (t := t.withTable table) hget]
    rfl

theorem unqueue_withTable (t : Transition κ) (table : EntryTable κ) (k : κ) :
    (t.withTable table).unqueue k = ((t.unqueue k).1, (t.unqueue k).2.withTable table) := by
  rw [unqueue_eq, unqueue_eq]
  rfl

theorem settle_withTable {t : Transition κ} {table : EntryTable κ}
    (h : t.cache.entries.Forgets table) (id : EntryId) :
    (t.withTable table).settle id = (t.settle id).withTable table := by
  cases hget : table.get? id with
  | some e =>
    by_cases hidle : e.clients = 0 ∧ e.orphan = false
    · rw [settle_of_idle (t := t.withTable table) hget hidle, settle_of_idle (h.kept id e hget) hidle]
      rfl
    · rw [settle_of_not_idle (t := t.withTable table) hget hidle,
        settle_of_not_idle (h.kept id e hget) hidle]
  | none =>
    rw [settle_of_none (t := t.withTable table) hget]
    cases he : t.cache.entries.get? id with
    | none => rw [settle_of_none he]
    | some e =>
      -- an orphan does not go to the policy, so it does not matter that it has been forgotten
      have hnot : ¬ (e.clients = 0 ∧ e.orphan = false) := by simp [(h.lost id e he hget).1]
      rw [settle_of_not_idle he hnot]

namespace Forgets

variable {t t' : Transition κ}

theorem cache (h : t.Forgets t') : t.cache.Forgets t'.cache := by
  obtain ⟨table, htable, rfl⟩ := h
  exact Cache.forgets_withTable htable

/-- Both transitions have the same consequences. -/
theorem notices_eq (h : t.Forgets t') : t'.notices = t.notices := by
  obtain ⟨table, _, rfl⟩ := h
  rfl

/-- A step that leaves the table alone, and does not look at it. -/
theorem congr (h : t.Forgets t') {f : Transition κ → Transition κ}
    (hf : ∀ table, f (t.withTable table) = (f t).withTable table)
    (hentries : (f t).cache.entries = t.cache.entries) : (f t).Forgets (f t') := by
  obtain ⟨table, htable, rfl⟩ := h
  exact ⟨table, hentries ▸ htable, hf table⟩

theorem reload (h : t.Forgets t') (s : Surroundings) : (t.reload s).Forgets (t'.reload s) := by
  refine h.congr (f := (·.reload s)) (fun table => ?_) (entries_reload t s)
  show (t.withTable table).reload s = _
  unfold Transition.reload
  show (if t.cache.reloadDue s.now then _ else _) = _
  split <;> rfl

theorem detach (h : t.Forgets t') (k : κ) :
    (t'.detach k).1 = (t.detach k).1 ∧ (t.detach k).2.Forgets (t'.detach k).2 := by
  obtain ⟨table, htable, rfl⟩ := h
  rw [detach_withTable]
  exact ⟨rfl, table, by rw [entries_detach]; exact htable, rfl⟩

theorem unqueue (h : t.Forgets t') (k : κ) :
    (t'.unqueue k).1 = (t.unqueue k).1 ∧ (t.unqueue k).2.Forgets (t'.unqueue k).2 := by
  obtain ⟨table, htable, rfl⟩ := h
  rw [unqueue_withTable]
  exact ⟨rfl, table, by rw [entries_unqueue]; exact htable, rfl⟩

theorem miss (h : t.Forgets t') (k : κ) : (t.miss k).Forgets (t'.miss k) :=
  h.congr (f := (·.miss k)) (fun _ => rfl) rfl

theorem reject (h : t.Forgets t') (size : Nat) : (t.reject size).Forgets (t'.reject size) :=
  h.congr (f := (·.reject size)) (fun _ => rfl) rfl

/-- The same change of one entry. -/
theorem updateEntry (h : t.Forgets t') {id : EntryId} {change : Entry κ → Entry κ}
    (hchange : t.cache.entries.Forgets t'.cache.entries →
      EntryTable.Forgets (t.cache.entries.update id change) (t'.cache.entries.update id change)) :
    (t.updateEntry id change).Forgets (t'.updateEntry id change) := by
  obtain ⟨table, htable, rfl⟩ := h
  exact ⟨table.update id change, hchange htable, rfl⟩

theorem orphan (h : t.Forgets t') (id : EntryId) : (t.orphan id).Forgets (t'.orphan id) :=
  h.updateEntry fun htable => htable.markOrphan id

theorem foldl_orphan (h : t.Forgets t') (ids : List EntryId) :
    (ids.foldl Transition.orphan t).Forgets (ids.foldl Transition.orphan t') := by
  induction ids generalizing t t' with
  | nil => exact h
  | cons id rest ih => exact ih (h.orphan id)

theorem supersede (h : t.Forgets t') (k : κ) : (t.supersede k).Forgets (t'.supersede k) := by
  obtain ⟨hfound, hdetach⟩ := (h.unqueue k).2.detach k
  unfold Transition.supersede
  dsimp only
  rw [hfound]
  split
  · exact hdetach
  · exact hdetach.orphan _

/-- An entry that both tables have is handed out. -/
theorem handOut (h : t.Forgets t') {id : EntryId} {e : Entry κ}
    (he : t'.cache.entries.get? id = some e) : (t.handOut id).Forgets (t'.handOut id) :=
  h.updateEntry fun htable => htable.update_of_mem he _

theorem hit (h : t.Forgets t') {id : EntryId} {e : Entry κ}
    (he : t'.cache.entries.get? id = some e) : (t.hit id).Forgets (t'.hit id) := by
  obtain ⟨table, htable, rfl⟩ := h
  -- the size that is counted is that of an entry which both tables have
  have hsize : table.size id = t.cache.entries.size id := by
    rw [EntryTable.size, EntryTable.size, show table.get? id = some e from he, htable.kept id e he]
  let counted := t.modify fun c => { c with counters := c.counters.recordHit (c.entries.size id) }
  have hcounted : counted.Forgets ((t.withTable table).modify fun c =>
      { c with counters := c.counters.recordHit (c.entries.size id) }) := by
    refine ⟨table, htable, ?_⟩
    show (t.withTable table).modify (fun c =>
      { c with counters := c.counters.recordHit (table.size id) }) = _
    rw [hsize]
    rfl
  exact hcounted.handOut he

theorem accept (h : t.Forgets t') (k : κ) (value : ValueId) (size : Nat)
    (observer : Option String) :
    (t'.accept k value size observer).1 = (t.accept k value size observer).1 ∧
      (t.accept k value size observer).2.Forgets (t'.accept k value size observer).2 := by
  obtain ⟨table, htable, rfl⟩ := h
  have hnext : table.next = t.cache.entries.next := htable.next_eq
  refine ⟨hnext, ?_⟩
  let e : Entry κ :=
    { key := k, value := value, size := size, observer := observer,
      accesses := t.cache.policy.initialAccesses k }
  -- the new entry is in both tables, under the same number
  have hget : Register.get? (table.add e) t.cache.entries.next = some e := by
    rw [Register.get?_add, if_pos hnext]
  have hadd : EntryTable.Forgets _ _ := htable.add e
  unfold Transition.accept
  dsimp only [Transition.withTable, Cache.withTable]
  rw [hnext]
  exact Forgets.handOut ⟨table.add e, hadd, rfl⟩ hget

/-- A client lets go of its entry, and the entry goes to the policy if it was the last client. -/
theorem release (h : t.Forgets t') (id : EntryId) :
    ((t.updateEntry id Entry.dropClient).settle id).Forgets
      ((t'.updateEntry id Entry.dropClient).settle id) := by
  have hdrop : (t.updateEntry id Entry.dropClient).Forgets (t'.updateEntry id Entry.dropClient) := by
    refine h.updateEntry fun htable => htable.update id fun e he hnone => ?_
    obtain ⟨horphan, hclients⟩ := htable.lost id e he hnone
    exact ⟨horphan, by rw [Entry.dropClient, hclients]⟩
  obtain ⟨table, htable, heq⟩ := hdrop
  rw [heq, settle_withTable htable]
  exact ⟨table, by rw [entries_settle]; exact htable, rfl⟩

/-- An evicted entry that both tables have is discarded. -/
theorem discardOne (h : t.Forgets t') {id : EntryId} {e : Entry κ}
    (he : t'.cache.entries.get? id = some e) : (t.discardOne id).Forgets (t'.discardOne id) := by
  have he₀ := h.cache.entries.kept id e he
  unfold Transition.discardOne
  rw [he, he₀]
  dsimp only
  exact ((h.detach e.key).2.orphan id).congr
    (f := fun t => (t.modify fun c =>
      { c with counters := c.counters.recordEviction e.size }).notify id false)
    (fun _ => rfl) rfl

theorem discard (h : t.Forgets t') {ids : List EntryId}
    (hids : ∀ id ∈ ids, ∃ e, t'.cache.entries.get? id = some e) :
    (t.discard ids).Forgets (t'.discard ids) := by
  have hfold : ∀ (ids : List EntryId) (t t' : Transition κ), t.Forgets t' →
      (∀ id ∈ ids, ∃ e, t'.cache.entries.get? id = some e) →
      (ids.foldl Transition.discardOne t).Forgets (ids.foldl Transition.discardOne t') := by
    intro ids
    induction ids with
    | nil => exact fun _ _ h _ => h
    | cons id rest ih =>
      intro t t' h hids
      obtain ⟨e, he⟩ := hids id List.mem_cons_self
      refine ih _ _ (h.discardOne he) fun j hj => ?_
      -- the other entries are still there
      obtain ⟨e', he'⟩ := hids j (List.mem_cons_of_mem _ hj)
      obtain ⟨e'', he'', _⟩ := (ages_discardOne t' id).later j e' he'
      exact ⟨e'', he''⟩
  obtain ⟨table, htable, rfl⟩ := h
  unfold Transition.discard
  split
  · exact ⟨table, htable, rfl⟩
  · exact hfold ids _ _ ⟨table, htable, rfl⟩ hids

/-- Exclusive entries that both tables have are given up by the policy, and discarded. -/
theorem yield (h : t.Forgets t') (hknown : t'.cache.KnowsExclusive) {ids : List EntryId}
    {policy : Policy κ} (hyield : t.cache.policy.Yields ids policy)
    (call : List κ → PolicyCall κ) :
    (((t.modify ({ · with policy := policy })).called (call (t.cache.entries.keys ids))).discard
        ids).Forgets
      (((t'.modify ({ · with policy := policy })).called (call (t'.cache.entries.keys ids))).discard
        ids) := by
  obtain ⟨table, htable, rfl⟩ := h
  have hids : ∀ id ∈ ids, ∃ e, table.get? id = some e :=
    fun id hid => hknown id (hyield.mem_ids id hid)
  have hkeys : table.keys ids = t.cache.entries.keys ids := htable.keys_eq hids
  have hcalled : ((t.modify ({ · with policy := policy })).called
      (call (t.cache.entries.keys ids))).Forgets
      (((t.withTable table).modify ({ · with policy := policy })).called (call (table.keys ids))) :=
    ⟨table, htable, by rw [hkeys]; rfl⟩
  exact hcalled.discard hids

/-- Where both tables have the exclusive entries, these were used as often. -/
theorem accesses_eq (h : t.Forgets t') (hknown : t'.cache.KnowsExclusive) :
    ∀ id ∈ t.cache.policy.ids, t'.cache.entries.accesses id = t.cache.entries.accesses id := by
  intro id hid
  rw [← h.cache.policy_eq] at hid
  obtain ⟨e, he⟩ := hknown id hid
  rw [EntryTable.accesses, EntryTable.accesses, he, h.cache.entries.kept id e he]

theorem evict (h : t.Forgets t') (hknown : t'.cache.KnowsExclusive) :
    t.evict.Forgets t'.evict := by
  have hbudget : t'.cache.queueBudget = t.cache.queueBudget := by
    rw [h.cache.eq_withTable]
    rfl
  have hevicted : t'.evicted = t.evicted := by
    rw [evicted, evicted, hbudget, h.cache.policy_eq]
    exact Policy.evict_congr (h.cache.policy_eq ▸ h.accesses_eq hknown) _ _
  rw [evict_eq, evict_eq, hevicted, hbudget]
  exact h.yield hknown (t.cache.policy.evict_yields _ _ _)
    (.evict t.cache.queueBudget.1 t.cache.queueBudget.2)

/-- The keys that a predicate accepts leave both caches. -/
theorem removeMatching (h : t.Forgets t') (hknown : t'.cache.KnowsExclusive) (p : Predicate κ) :
    (t'.removeMatching p).1 = (t.removeMatching p).1 ∧
      (t.removeMatching p).2.2.Forgets (t'.removeMatching p).2.2 := by
  obtain ⟨table, htable, rfl⟩ := h
  refine ⟨rfl, ?_⟩
  -- what is exclusive has a row in the shorter table too
  have hkeys : table.keys (t.cache.policy.removeAll p []).1
      = t.cache.entries.keys (t.cache.policy.removeAll p []).1 :=
    htable.keys_eq fun id hid => hknown id (Policy.mem_ids_of_removeAll hid)
  let exclusives := t.cache.policy.removeAll p []
  let removed := t.cache.cached.removeAll p (t.cache.policy.askedAfter [])
  let ids := removed.1.map Prod.snd
  -- the walks leave the table alone; what they found is marked and reported afterwards
  let walked (t : Transition κ) : Transition κ :=
    { t with
      cache := { t.cache with policy := exclusives.2, cached := removed.2 }
      detached := t.detached ++ ids }.called (.removeAll (t.cache.entries.keys exclusives.1))
  have hwalked : (walked t).Forgets (walked (t.withTable table)) := by
    refine ⟨table, htable, ?_⟩
    show Transition.called _ (.removeAll (table.keys exclusives.1)) = _
    rw [hkeys]
    rfl
  refine (hwalked.foldl_orphan ids).congr (f := exclusives.1.foldl (notify · · false))
    (fun table => ?_) ?_
  · rw [foldl_notify, foldl_notify]
    rfl
  · rw [foldl_notify]

end Forgets

end Transition

end RefCache
