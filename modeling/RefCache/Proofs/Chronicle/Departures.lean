import RefCache.Proofs.Chronicle.Uses

/-!
# How entries come and go

A row of the map of cached entries comes in with a value that is taken in, and it leaves in one of four
ways: its key is taken over by a newer value, a predicate or a `clear` removes it, a `reuse` takes it back,
or it is evicted. Only an eviction is counted as one.

* `Transition.Evicts`: rows are discarded, and each is counted once with its recorded size
* `Asked.Ready.accounts_for`: over an operation every row is accounted for, and so is every count
-/

namespace RefCache

universe u

variable {κ : Type u}

namespace Counters

/-- These rows were evicted. -/
def recordEvictions (c : Counters) (out : List (κ × Sized EntryId)) : Counters :=
  { c with
    evictions := c.evictions + out.length
    bytesEvicted := c.bytesEvicted.add (totalOf (fun x => x.2.size) out) }

section Fields

variable (c : Counters) (out : List (κ × Sized EntryId))

@[simp] theorem requests_recordEvictions : (c.recordEvictions out).requests = c.requests := rfl

@[simp] theorem hits_recordEvictions : (c.recordEvictions out).hits = c.hits := rfl

@[simp] theorem insertions_recordEvictions : (c.recordEvictions out).insertions = c.insertions := rfl

@[simp] theorem bytesWritten_recordEvictions : (c.recordEvictions out).bytesWritten = c.bytesWritten := rfl

@[simp] theorem evictions_recordEvictions :
    (c.recordEvictions out).evictions = c.evictions + out.length := rfl

@[simp] theorem bytesEvicted_recordEvictions :
    (c.recordEvictions out).bytesEvicted = c.bytesEvicted.add (totalOf (fun x => x.2.size) out) := rfl

end Fields

theorem recordEvictions_nil (c : Counters) : c.recordEvictions ([] : List (κ × Sized EntryId)) = c := by
  simp [recordEvictions, Tally.add_zero]

theorem recordEvictions_append (c : Counters) (out out' : List (κ × Sized EntryId)) :
    c.recordEvictions (out ++ out') = (c.recordEvictions out).recordEvictions out' := by
  simp [recordEvictions, Nat.add_assoc, Tally.add_add]

end Counters

variable [Key κ]

/-! ## Rows that are evicted -/

namespace Transition

/-- The rows `out` have left the map of cached entries, and were counted as evicted. -/
structure Evicts (out : List (κ × Sized EntryId)) (t t' : Transition κ) : Prop where
  cached_perm : t.cache.cached.toList.Perm (out ++ t'.cache.cached.toList)
  counters_eq : t'.cache.counters = t.cache.counters.recordEvictions out

variable {t t' t'' : Transition κ} {out out' loose : List (κ × Sized EntryId)}
  {table : EntryTable κ} {base : List EntryId}

/-- A step that evicts nothing. -/
theorem evicts_nil (hcached : t'.cache.cached = t.cache.cached)
    (hcounters : t'.cache.counters = t.cache.counters) : Evicts [] t t' where
  cached_perm := hcached ▸ .refl _
  counters_eq := by rw [hcounters, Counters.recordEvictions_nil]

theorem Evicts.trans (h : Evicts out t t') (h' : Evicts out' t' t'') :
    Evicts (out ++ out') t t'' where
  cached_perm := by
    rw [List.append_assoc]
    exact h.cached_perm.trans (h'.cached_perm.append_left out)
  counters_eq := by
    rw [h'.counters_eq, h.counters_eq, Counters.recordEvictions_append]

theorem counters_detach (t : Transition κ) (k : κ) :
    (t.detach k).2.cache.counters = t.cache.counters := by
  unfold detach
  split <;> rfl

theorem counters_unqueue (t : Transition κ) (k : κ) :
    (t.unqueue k).2.cache.counters = t.cache.counters := by
  rw [cache_unqueue]

theorem counters_reload (t : Transition κ) (s : Surroundings) :
    (t.reload s).cache.counters = t.cache.counters := by
  unfold reload
  split <;> rfl

theorem counters_settle (t : Transition κ) (id : EntryId) :
    (t.settle id).cache.counters = t.cache.counters := by
  unfold settle
  split
  · rfl
  · split <;> rfl

theorem counters_supersede (t : Transition κ) (k : κ) :
    (t.supersede k).cache.counters = t.cache.counters := by
  have hdetach := (t.unqueue k).2.counters_detach k
  rw [counters_unqueue] at hdetach
  unfold supersede
  dsimp only
  split <;> exact hdetach

/-- The row of an entry that is discarded leaves, with the size that is counted. -/
theorem Orderly.discardOne_evicts {x : κ × Sized EntryId} (h : t.Orderly table base (x :: loose)) :
    Evicts [x] t (t.discardOne x.2.value) := by
  have hmem : x ∈ t.cache.cached.toList :=
    (h.owned.mem_idle (List.mem_append_left _ List.mem_cons_self)).1
  obtain ⟨e, he, hkey, hsize, _⟩ := h.owned.entry_of_cached x hmem
  have hcached := t.cached_detach e.key
  have hcounters := t.counters_detach e.key
  unfold Transition.discardOne
  rw [he]
  constructor
  · -- the key is cached once, so only this row leaves
    show t.cache.cached.toList.Perm (x :: (t.detach e.key).2.cache.cached.toList)
    rw [hcached, hkey]
    exact perm_cons_filter_key t.cache.cached.nodup_keys hmem
  · show (t.detach e.key).2.cache.counters.recordEviction e.size = _
    rw [hcounters, hsize]
    simp [Counters.recordEviction, Counters.recordEvictions]

theorem Orderly.discard_evicts (h : t.Orderly table base loose) :
    Evicts loose t (t.discard (loose.map (·.2.value))) := by
  -- over the entries given up, each one from the cache that the one before has left
  have hfold : ∀ (out : List (κ × Sized EntryId)) (t : Transition κ), t.Orderly table base out →
      Evicts out t ((out.map (·.2.value)).foldl Transition.discardOne t) := by
    intro out
    induction out with
    | nil => exact fun t _ => evicts_nil rfl rfl
    | cons x rest ih => exact fun t ht => ht.discardOne_evicts.trans (ih _ ht.discardOne)
  unfold Transition.discard
  split
  · rename_i hempty
    rw [List.isEmpty_iff, List.map_eq_nil_iff] at hempty
    subst hempty
    exact evicts_nil rfl rfl
  · -- writing to the log evicts nothing
    let logged := t.log (.evicted t.cache.policy.name (loose.map (·.2.value)).length
      t.cache.policy.count)
    have hlogged : Evicts [] t logged := evicts_nil rfl rfl
    exact hlogged.trans (hfold loose logged (h.log _))

/-- What a policy yields is evicted. -/
theorem Orderly.yield_evicts (h : t.Orderly table base []) {ids : List EntryId} {policy : Policy κ}
    (hyield : t.cache.policy.Yields ids policy) (call : PolicyCall κ) :
    ∃ out, out.map (·.2.value) = ids ∧ Evicts out t
      (((t.modify ({ · with policy := policy })).called call).discard ids) := by
  obtain ⟨out, rfl, hloose⟩ := h.loosen hyield call
  have hgiven : Evicts [] t ((t.modify ({ · with policy := policy })).called call) := evicts_nil rfl rfl
  exact ⟨out, rfl, hgiven.trans hloose.discard_evicts⟩

theorem Orderly.evict_evicts (h : t.Orderly table base []) :
    ∃ out, out.map (·.2.value) = t.evicted.1 ∧ Evicts out t t.evict :=
  h.yield_evicts (t.cache.policy.evict_yields _ _ _) _

end Transition

/-! ## Rows that come and go in an operation -/

namespace Asked

variable (x : Asked κ)

/-- The row of a value that the operation takes in. -/
def takenIn : List (κ × Sized EntryId) :=
  match x.op with
  | .store s k value size observer =>
    (x.cache.store s k value size observer).1.toList.map fun id => (k, ⟨id, size⟩)
  | _ => []

/-- The row whose key a value that is taken in takes over. -/
def superseded : List (κ × Sized EntryId) :=
  match x.op with
  | .store s k value size observer =>
    if (x.cache.store s k value size observer).1.isSome then x.cache.cached.toList.filter (·.1 = k)
    else []
  | _ => []

/-- The rows that the operation removes by their keys. -/
def removed : List (κ × Sized EntryId) :=
  match x.op with
  | .removeAll _ p => x.cache.cached.toList.filter fun y => p.answer [] y.1
  | .clear _ => x.cache.cached.toList
  | _ => []

/-- The row of the entry that the operation takes back. -/
def reused : List (κ × Sized EntryId) :=
  match x.op with
  | .reuse k =>
    if (x.cache.reuse k).1.isSome then x.cache.cached.toList.filter (·.1 = k) else []
  | _ => []

/-- The entries that a trim evicts to come to its target. -/
def trimmed : List EntryId :=
  match x.op with
  | .trim _ _ ratio => (x.cache.policy.trim x.cache.entries.accesses (x.cache.trimTarget ratio)).1
  | _ => []

/-- The entries that the operation evicts because they exceed the limits. -/
def limited : List EntryId :=
  if x.op.evicts then (x.cache.beforeEviction x.op).evicted.1 else []

/-- The entries that the operation evicts, in order. -/
def evicted : List EntryId :=
  x.trimmed ++ x.limited

/-- What the operation counts, evictions apart. -/
def counted : Counters :=
  match x.op with
  | .store s k value size observer =>
    if (x.cache.store s k value size observer).1.isSome then x.cache.counters.recordInsertion size
    else x.cache.counters.recordRejection
  | .get s k =>
    match (x.cache.get s k).1 with
    | some id => x.cache.counters.recordHit (x.cache.entries.size id)
    | none => x.cache.counters.recordMiss
  | _ => x.cache.counters

/-- From the cache that is asked to the cache `c`, every row is accounted for: those that were there and
those that came in have left in one of the four ways, the last of which is to be among the rows `out` that
were evicted, or are there. -/
structure AccountsFor (out : List (κ × Sized EntryId)) (c : Cache κ) : Prop where
  counters_eq : c.counters = x.counted.recordEvictions out
  rows_perm : (x.cache.cached.toList ++ x.takenIn).Perm
    (x.superseded ++ (x.removed ++ (x.reused ++ (out ++ c.cached.toList))))

end Asked

/-- The operation is no trim. -/
def Operation.TrimsNothing : Operation κ → Prop
  | .trim .. => False
  | _ => True

namespace Cache

open Transition

variable {c : Cache κ} {base : List EntryId}

/-- Whether a value is taken in is decided under the limits in effect. -/
theorem store_fst_ite (c : Cache κ) (s : Surroundings) (k : κ) (value : ValueId) (size : Nat)
    (observer : Option String) : (c.store s k value size observer).1
      = if (c.start.reload s).cache.admits k size
        then some ((c.start.reload s).supersede k).cache.entries.next else none := by
  unfold Cache.store
  dsimp only
  split <;> rfl

theorem reuse_of_none {k : κ} (hnone : (c.policy.remove k).1 = none) :
    c.reuse k = (none, (c.start.unqueue k).2) := by
  have hunqueue : (c.start.unqueue k).1 = none := (unqueue_fst _ k).trans hnone
  unfold Cache.reuse
  dsimp only
  rw [hunqueue]

theorem reuse_of_some {k : κ} {id : EntryId} (hsome : (c.policy.remove k).1 = some id) :
    c.reuse k = (some id, ((c.start.unqueue k).2.detach k).2.orphan id) := by
  have hunqueue : (c.start.unqueue k).1 = some id := (unqueue_fst _ k).trans hsome
  unfold Cache.reuse
  dsimp only
  rw [hunqueue]

/-- The rows of the map of cached entries after an operation that trims nothing, until it evicts. -/
def cachedAfter (c : Cache κ) : Operation κ → List (κ × Sized EntryId)
  | .store s k value size observer =>
    match (c.store s k value size observer).1 with
    | none => c.cached.toList
    | some id => c.cached.toList.filter (·.1 ≠ k) ++ [(k, ⟨id, size⟩)]
  | .reuse k =>
    match (c.policy.remove k).1 with
    | none => c.cached.toList
    | some _ => c.cached.toList.filter (·.1 ≠ k)
  | .removeAll _ p => c.cached.toList.filter fun x => !p.answer [] x.1
  | .clear _ => []
  | .get .. | .probe _ | .trim .. | .release .. => c.cached.toList

theorem cached_beforeEviction (c : Cache κ) {op : Operation κ} (hop : op.KeyDetermined)
    (htrims : op.TrimsNothing) : (c.beforeEviction op).cache.cached.toList = c.cachedAfter op := by
  cases op with
  | store s k value size observer =>
    have hreload := c.start.cached_reload s
    have hrows := Transition.cached_supersede (c.start.reload s) k
    rw [hreload] at hrows
    unfold beforeEviction cachedAfter store
    dsimp only
    split
    · -- nothing is cached under the key any more, so putting it drops nothing
      show (((c.start.reload s).supersede k).cache.cached.put k _ size).toList = _
      rw [SizedMap.toList_put, hrows, List.filter_filter]
      simp [Cache.start, Transition.accept]
    · show (c.start.reload s).cache.cached.toList = _
      rw [hreload]
      rfl
  | get s k =>
    unfold beforeEviction cachedAfter
    dsimp only
    -- a reload leaves the map alone, whether the request is answered or not
    split <;> rw [Transition.cached_reload] <;> exact congrArg _ (Transition.cached_unqueue_start c k)
  | probe k => rfl
  | reuse k =>
    have hdetach := (c.start.unqueue k).2.cached_detach k
    rw [Transition.cached_unqueue_start] at hdetach
    show (c.reuse k).2.cache.cached.toList = _
    unfold cachedAfter
    dsimp only
    -- what has no place in a pool is not taken out of the map either
    cases hfound : (c.policy.remove k).1 with
    | none =>
      rw [reuse_of_none hfound, Transition.cached_unqueue_start]
    | some id =>
      rw [reuse_of_some hfound]
      exact hdetach
  | removeAll s p =>
    show ((c.start.removeMatching p).2.2.reload s).cache.cached.toList = _
    rw [Transition.cached_reload, Transition.cache_removeMatching]
    -- the walk over the map asks the predicate about keys alone, so it is a filter
    exact (c.cached.removeAll_of_keyDetermined hop _).2
  | clear s =>
    show ((c.start.removeMatching .always).2.2.reload s).cache.cached.toList = _
    rw [Transition.cached_reload, Transition.cache_removeMatching]
    refine (c.cached.removeAll_of_keyDetermined Predicate.keyDetermined_always _).2.trans ?_
    exact List.filter_eq_nil_iff.2 fun _ _ => Bool.false_ne_true
  | trim => exact htrims.elim
  | release s id =>
    show (((c.start.updateEntry id Entry.dropClient).settle id).reload s).cache.cached.toList = _
    rw [Transition.cached_reload, Transition.cached_settle]
    rfl

theorem counters_beforeEviction (c : Cache κ) {op : Operation κ} (htrims : op.TrimsNothing) :
    (c.beforeEviction op).cache.counters = (⟨c, op⟩ : Asked κ).counted := by
  cases op with
  | store s k value size observer =>
    have hreload : (c.start.reload s).cache.counters = c.counters := c.start.counters_reload s
    have hstored := c.store_fst_ite s k value size observer
    unfold beforeEviction Asked.counted
    dsimp only
    -- the counters tell which of the two ways the store went
    rw [hstored]
    split
    · show ((c.start.reload s).supersede k).cache.counters.recordInsertion size = _
      rw [counters_supersede, hreload]
      rfl
    · show (c.start.reload s).cache.counters.recordRejection = _
      rw [hreload]
      rfl
  | get s k =>
    have hunqueue : (c.start.unqueue k).2.cache.counters = c.counters := c.start.counters_unqueue k
    have hentries : (c.start.unqueue k).2.cache.entries = c.entries := c.start.entries_unqueue k
    unfold beforeEviction Asked.counted
    dsimp only
    -- the map decides between a hit and a miss, and the pools have no say
    rw [get_fst, cached_unqueue_start]
    cases c.cached.get? k with
    | some id =>
      rw [counters_reload]
      show (c.start.unqueue k).2.cache.counters.recordHit ((c.start.unqueue k).2.cache.entries.size id) = _
      rw [hunqueue, hentries]
    | none =>
      rw [counters_reload]
      exact congrArg Counters.recordMiss hunqueue
  | probe k => rfl
  | reuse k =>
    have hunqueue : (c.start.unqueue k).2.cache.counters = c.counters := c.start.counters_unqueue k
    show (c.reuse k).2.cache.counters = c.counters
    cases hfound : (c.policy.remove k).1 with
    | none => rw [reuse_of_none hfound, hunqueue]
    | some id =>
      rw [reuse_of_some hfound]
      -- taking out for reuse counts as no eviction
      exact ((c.start.unqueue k).2.counters_detach k).trans hunqueue
  | removeAll s p =>
    show ((c.start.removeMatching p).2.2.reload s).cache.counters = c.counters
    rw [counters_reload, cache_removeMatching]
    rfl
  | clear s =>
    show ((c.start.removeMatching .always).2.2.reload s).cache.counters = c.counters
    rw [counters_reload, cache_removeMatching]
    rfl
  | trim => exact htrims.elim
  | release s id =>
    show (((c.start.updateEntry id Entry.dropClient).settle id).reload s).cache.counters = c.counters
    rw [counters_reload, counters_settle]
    rfl

/-- Without a trim the rows of an operation are there, or have left in another way than by an eviction. -/
theorem perm_cachedAfter (c : Cache κ) {op : Operation κ} (htrims : op.TrimsNothing) :
    (c.cached.toList ++ (⟨c, op⟩ : Asked κ).takenIn).Perm ((⟨c, op⟩ : Asked κ).superseded
      ++ ((⟨c, op⟩ : Asked κ).removed ++ ((⟨c, op⟩ : Asked κ).reused ++ c.cachedAfter op))) := by
  -- the row of a key, and the others
  have hsplit : ∀ k : κ, c.cached.toList.Perm
      (c.cached.toList.filter (·.1 = k) ++ c.cached.toList.filter (·.1 ≠ k)) := by
    intro k
    simpa using (List.filter_append_perm (fun y : κ × Sized EntryId => decide (y.1 = k)) _).symm
  cases op with
  | store s k value size observer =>
    cases hstored : (c.store s k value size observer).1 with
    | none => simp [Asked.takenIn, Asked.superseded, Asked.removed, Asked.reused, cachedAfter, hstored]
    | some id =>
      -- the row of the key has been superseded, and the new one stands at the end
      simpa [Asked.takenIn, Asked.superseded, Asked.removed, Asked.reused, cachedAfter, hstored]
        using (hsplit k).append_right [(k, ⟨id, size⟩)]
  | reuse k =>
    -- the row of the key has been taken back, if the entry was exclusive
    cases hfound : (c.policy.remove k).1 with
    | none =>
      simp [Asked.takenIn, Asked.superseded, Asked.removed, Asked.reused, cachedAfter, hfound,
        reuse_of_none hfound]
    | some id =>
      simpa [Asked.takenIn, Asked.superseded, Asked.removed, Asked.reused, cachedAfter, hfound,
        reuse_of_some hfound] using hsplit k
  | removeAll s p =>
    simpa [Asked.takenIn, Asked.superseded, Asked.removed, Asked.reused, cachedAfter]
      using (List.filter_append_perm (fun y : κ × Sized EntryId => p.answer [] y.1) c.cached.toList).symm
  | trim => exact htrims.elim
  | _ => simp [Asked.takenIn, Asked.superseded, Asked.removed, Asked.reused, cachedAfter]

theorem accountsFor_of_trimsNothing (c : Cache κ) {op : Operation κ} (hop : op.KeyDetermined)
    (htrims : op.TrimsNothing) : (⟨c, op⟩ : Asked κ).AccountsFor [] (c.beforeEviction op).cache where
  counters_eq := by rw [c.counters_beforeEviction htrims, Counters.recordEvictions_nil]
  rows_perm := by
    rw [c.cached_beforeEviction hop htrims]
    exact c.perm_cachedAfter htrims

theorem accountsFor_trim (h : c.Owned) (hkept : c.KeepsOrphans base) (s : Surroundings)
    (pressure : Pressure) (ratio : Float) :
    ∃ out, out.map (·.2.value) = (⟨c, .trim s pressure ratio⟩ : Asked κ).trimmed ∧
      (⟨c, .trim s pressure ratio⟩ : Asked κ).AccountsFor out
        (c.beforeEviction (.trim s pressure ratio)).cache := by
  have hlog := (start_orderly h hkept).log (.trimming pressure ratio (c.trimTarget ratio))
  obtain ⟨out, hids, hout⟩ := hlog.yield_evicts
    (c.policy.trim_yields c.entries.accesses (c.trimTarget ratio))
    (.trim (c.trimTarget ratio) (c.entries.keys
      (c.policy.trim c.entries.accesses (c.trimTarget ratio)).1))
  refine ⟨out, hids, ?_, ?_⟩
  · exact (counters_reload _ s).trans hout.counters_eq
  · unfold Cache.beforeEviction
    dsimp only
    rw [cached_reload]
    exact (List.append_nil c.cached.toList).symm ▸ hout.cached_perm

theorem accountsFor_beforeEviction (h : c.Owned) (hkept : c.KeepsOrphans base) {op : Operation κ}
    (hop : op.KeyDetermined) : ∃ out, out.map (·.2.value) = (⟨c, op⟩ : Asked κ).trimmed ∧
      (⟨c, op⟩ : Asked κ).AccountsFor out (c.beforeEviction op).cache := by
  cases op with
  | trim s pressure ratio => exact accountsFor_trim h hkept s pressure ratio
  | _ => exact ⟨[], rfl, c.accountsFor_of_trimsNothing hop trivial⟩

end Cache

/-- Over an operation every row is accounted for, and those that are counted as evicted are the rows of the
entries that the operation evicts. -/
theorem Asked.Ready.accounts_for {x : Asked κ} (h : x.Ready) :
    ∃ out, out.map (·.2.value) = x.evicted ∧ x.AccountsFor out x.after := by
  obtain ⟨keepers, hkept, haccepts⟩ := h.accepted
  have hbefore := Cache.beforeEviction_orderly h.owned hkept h.determined haccepts
  obtain ⟨out, hids, haccounts⟩ := Cache.accountsFor_beforeEviction h.owned hkept h.determined
  rw [after, Cache.apply_eq, evicted, limited]
  by_cases hevicts : x.op.evicts = true
  · -- what the eviction at the end takes out comes after what a trim has taken out
    rw [if_pos hevicts, if_pos hevicts]
    obtain ⟨out', hids', hout'⟩ := hbefore.evict_evicts
    refine ⟨out ++ out', ?_, ?_, ?_⟩
    · rw [List.map_append, hids, hids']
    · rw [hout'.counters_eq, haccounts.counters_eq, Counters.recordEvictions_append]
    · refine haccounts.rows_perm.trans ?_
      rw [List.append_assoc]
      exact (((hout'.cached_perm.append_left out).append_left _).append_left _).append_left _
  · rw [if_neg hevicts, if_neg hevicts, List.append_nil]
    exact ⟨out, hids, haccounts⟩

end RefCache
