import RefCache.Proofs.Ownership.Discard
import RefCache.Proofs.Ownership.Pools
import RefCache.Proofs.Session.Reachable

/-!
# Removing by a predicate that remembers

A removal puts its predicate first to the exclusive entries and then to all that are cached. A predicate
that remembers what it was asked may choose an exclusive entry in one walk and not in the other:

* chosen only in the first, the entry stays cached, but no pool has it any more: nothing will evict it,
  and it counts as in use;
* chosen only in the second, the entry is an orphan, but still in its pool until it is evicted. When the pools
  keep more than is cached, what counts as in use wraps around, and the eviction at the end of the removal takes
  that for what is in use.

`Cache.Leaves` describes exactly what a removal leaves, whatever the predicate answers, and
`removeAll_accounted_iff` says when the totals of the cache are right afterwards.
-/

namespace RefCache

universe u

variable {κ : Type u} [Key κ]

/-! ## What a removal leaves -/

namespace Cache

/-- The keys that the predicate chooses when it is put to the exclusive entries. -/
def chosenFirst (c : Cache κ) (p : Predicate κ) : List κ :=
  (c.policy.chosen p []).map Prod.fst

/-- The keys that it chooses when it is put to all cached entries after that. -/
def chosenSecond (c : Cache κ) (p : Predicate κ) : List κ :=
  (c.cached.matching p (c.policy.askedAfter [])).map Prod.fst

/-- A key leaves the map of cached entries in the second walk, or when the rows `out` are evicted. -/
def leaving (c : Cache κ) (p : Predicate κ) (out : List (κ × Sized EntryId)) (k : κ) : Bool :=
  k ∈ c.chosenSecond p || k ∈ out.map Prod.fst

/-- `c'` is what a removal leaves of `c` when the eviction at its end takes the rows `out`; the entries
`ids` have become orphans. -/
structure Leaves (c : Cache κ) (p : Predicate κ) (out : List (κ × Sized EntryId))
    (ids : List EntryId) (c' : Cache κ) : Prop where
  items_perm : (c.policy.items.filter fun x => decide (x.1 ∉ c.chosenFirst p)).Perm
    (out ++ c'.policy.items)
  cached_eq : c'.cached.toList = c.cached.toList.filter fun x => !c.leaving p out x.1
  mem_ids_iff : ∀ id, id ∈ ids ↔
    ∃ x ∈ c.cached.toList, c.leaving p out x.1 = true ∧ x.2.value = id
  entries_eq : ∀ id, c'.entries.get? id
    = if id ∈ ids then (c.entries.get? id).map Entry.markOrphan else c.entries.get? id

variable {c c' : Cache κ}

/-- What is evicted comes on top of what the walks choose. -/
theorem leaving_eq (p : Predicate κ) (out : List (κ × Sized EntryId)) (k : κ) :
    c.leaving p out k = (c.leaving p [] k || decide (k ∈ out.map Prod.fst)) := by
  rw [leaving, leaving, List.map_nil, decide_eq_false List.not_mem_nil, Bool.or_false]

/-- What the two walks of a predicate leave. -/
theorem removeMatching_leaves (h : c.Owned) (p : Predicate κ) :
    c.Leaves p [] ((c.cached.matching p (c.policy.askedAfter [])).map Prod.snd)
      (c.start.removeMatching p).2.2.cache := by
  have hleaving : ∀ k, c.leaving p [] k = decide (k ∈ c.chosenSecond p) :=
    fun k => Bool.or_false _
  have hpairs : (c.cached.pairs.map Prod.fst).Nodup := by
    rw [SizedMap.pairs, List.map_map]
    exact c.cached.nodup_keys
  have hmatching : c.cached.matching p (c.policy.askedAfter [])
      = c.cached.pairs.filter fun e => decide (e.1 ∈ c.chosenSecond p) :=
    p.choose_eq_filter_mem _ hpairs
  rw [Transition.cache_removeMatching]
  -- pools and map each lose what their own walk has chosen
  refine ⟨?_, ?_, fun id => ?_, EntryTable.get?_foldl_markOrphan c.entries _⟩
  · show (c.policy.items.filter _).Perm (c.policy.removeAll p []).2.items
    rw [Policy.items_removeAll _ _ _ h.nodup_item_keys]
    exact .refl _
  · show (c.cached.eraseMany (c.chosenSecond p)).toList = _
    rw [SizedMap.toList_eraseMany]
    refine List.filter_congr fun x _ => ?_
    rw [hleaving, decide_not]
  · rw [hmatching]
    simp only [SizedMap.pairs, List.mem_map, List.mem_filter, hleaving]
    constructor
    · rintro ⟨_, ⟨⟨x, hx, rfl⟩, hchosen⟩, rfl⟩
      exact ⟨x, hx, hchosen, rfl⟩
    · rintro ⟨x, hx, hchosen, rfl⟩
      exact ⟨_, ⟨⟨x, hx, rfl⟩, hchosen⟩, rfl⟩

/-- What is left once the eviction has taken some entries more. -/
theorem removeAll_leaves (h : c.Owned) (s : Surroundings) (p : Predicate κ) :
    ∃ out ids, c.Leaves p out ids (c.removeAll s p).2.2.cache := by
  let t := (c.start.removeMatching p).2.2.reload s
  let chosen := (c.cached.matching p (c.policy.askedAfter [])).map Prod.snd
  have hwalks := removeMatching_leaves h p
  obtain ⟨hpolicy, hcached, hentries⟩ : t.cache.policy = (c.start.removeMatching p).2.2.cache.policy ∧
      t.cache.cached = (c.start.removeMatching p).2.2.cache.cached ∧ t.cache.entries
        = chosen.foldl (fun table id => table.update id Entry.markOrphan) c.entries := by
    refine ⟨Transition.policy_reload _ s, Transition.cached_reload _ s, (Transition.entries_reload _ s).trans ?_⟩
    rw [Transition.cache_removeMatching]
    rfl
  -- what the policy has at the end of the walks it had before
  have hitem : ∀ x ∈ t.cache.policy.items, x ∈ c.cached.toList := fun x hx =>
    h.cached_of_item (List.mem_filter.1 (hwalks.items_perm.mem_iff.2 (hpolicy ▸ hx))).1
  have hrows : ∀ x ∈ t.cache.policy.items, ∃ e,
      t.cache.entries.get? x.2.value = some e ∧ e.key = x.1 := by
    intro x hx
    obtain ⟨e, he, hkey, _⟩ := h.entry_of_cached x (hitem x hx)
    rw [hentries, EntryTable.get?_foldl_markOrphan, he]
    split
    · exact ⟨e.markOrphan, rfl, hkey⟩
    · exact ⟨e, rfl, hkey⟩
  obtain ⟨out, hperm, hsheds⟩ := Transition.evict_sheds hrows
  have hout : ∀ x ∈ out, x ∈ c.cached.toList := fun x hx =>
    hitem x (hperm.mem_iff.2 (List.mem_append_left _ hx))
  -- what leaves the map is what the second walk has chosen or the eviction has taken
  refine ⟨out, chosen ++ out.map (·.2.value), ?_, ?_, fun id => ?_, fun id => ?_⟩
  · rw [hpolicy] at hperm
    exact hwalks.items_perm.trans hperm
  · show t.evict.cache.cached.toList = _
    rw [hsheds.cached_eq, hcached, hwalks.cached_eq, List.filter_filter]
    refine List.filter_congr fun x _ => ?_
    rw [leaving_eq p out, Bool.not_or, decide_not, Bool.and_comm]
  · rw [List.mem_append, hwalks.mem_ids_iff, List.mem_map]
    constructor
    · rintro (⟨x, hx, hchosen, rfl⟩ | ⟨x, hx, rfl⟩)
      · exact ⟨x, hx, by rw [leaving_eq p out, hchosen, Bool.true_or], rfl⟩
      · have hevicted : decide (x.1 ∈ out.map Prod.fst) = true :=
          decide_eq_true (List.mem_map_of_mem hx)
        exact ⟨x, hout x hx, by rw [leaving_eq p out, hevicted, Bool.or_true], rfl⟩
    · rintro ⟨x, hx, hleaving, rfl⟩
      rw [leaving_eq p out, Bool.or_eq_true] at hleaving
      rcases hleaving with hchosen | hevicted
      · exact .inl ⟨x, hx, hchosen, rfl⟩
      · obtain ⟨y, hy, hkey⟩ := List.mem_map.1 (of_decide_eq_true hevicted)
        have hy' : (x.1, y.2) ∈ c.cached.toList := hkey ▸ hout y hy
        exact .inr ⟨y, hy, by rw [c.cached.eq_of_mem_toList hy' hx]⟩
  · show Register.get? t.evict.cache.entries id = _
    rw [hsheds.entries_eq, hentries, ← List.foldl_append]
    exact EntryTable.get?_foldl_markOrphan c.entries _ id

namespace Leaves

variable {p : Predicate κ} {out : List (κ × Sized EntryId)} {ids : List EntryId}

/-- What is left to the policy was exclusive before, and not chosen in the first walk. -/
theorem of_item (h : c.Leaves p out ids c') {x : κ × Sized EntryId}
    (hx : x ∈ out ++ c'.policy.items) : x ∈ c.policy.items ∧ x.1 ∉ c.chosenFirst p := by
  have hmem := List.mem_filter.1 (h.items_perm.mem_iff.2 hx)
  exact ⟨hmem.1, of_decide_eq_true hmem.2⟩

theorem clients_eq (h : c.Leaves p out ids c') (id : EntryId) :
    c'.entries.clients id = c.entries.clients id := by
  rw [EntryTable.clients, EntryTable.clients, Register.readout, Register.readout, h.entries_eq]
  split
  · rw [Option.map_map]
    rfl
  · rfl

theorem cached_iff (h : c.Leaves p out ids c') (x : κ × Sized EntryId) :
    x ∈ c'.cached.toList ↔ x ∈ c.cached.toList ∧ c.leaving p out x.1 = false := by
  rw [h.cached_eq, List.mem_filter, Bool.not_eq_true']

/-- A predicate that chooses the same exclusive entries in both walks, but for those that the eviction
takes, keeps the ownership of entries. -/
theorem owned (h : c.Leaves p out ids c') (howned : c.Owned)
    (hfirst : ∀ x ∈ c.policy.items, x.1 ∈ c.chosenFirst p → x.1 ∈ c.chosenSecond p)
    (hsecond : ∀ x ∈ c'.policy.items, x.1 ∉ c.chosenSecond p) : c'.Owned := by
  -- the map loses what is chosen in the second walk and what is evicted, and so must the pools
  refine howned.expel (c.leaving p out) ids h.cached_eq h.mem_ids_iff h.entries_eq ?_
  rw [List.nil_append, List.nil_append]
  have hnodup : ((out ++ c'.policy.items).map Prod.fst).Nodup := by
    rw [← (h.items_perm.map Prod.fst).nodup_iff]
    exact howned.nodup_item_keys.sublist (List.filter_sublist.map _)
  rw [List.map_append, List.nodup_append] at hnodup
  -- without the rows evicted, both sides list the same exclusive entries
  have hleft : (c.policy.items.filter fun x => decide (x.1 ∉ c.chosenFirst p)).filter
        (fun x => decide (x.1 ∉ out.map Prod.fst))
      = c.policy.items.filter fun x => !c.leaving p out x.1 := by
    rw [List.filter_filter]
    refine List.filter_congr fun x hx => ?_
    rw [← Bool.decide_and, leaving, ← Bool.decide_or, ← decide_not]
    refine decide_eq_decide.2 ?_
    rw [not_or]
    constructor
    · rintro ⟨hout, hnot⟩
      refine ⟨?_, hout⟩
      have hmem := h.items_perm.mem_iff.1 (List.mem_filter.2 ⟨hx, decide_eq_true hnot⟩)
      rcases List.mem_append.1 hmem with hgone | hleft
      · exact absurd (List.mem_map_of_mem hgone) hout
      · exact hsecond x hleft
    · rintro ⟨hnot, hout⟩
      exact ⟨hout, fun hchosen => hnot (hfirst x hx hchosen)⟩
  have hright : (out ++ c'.policy.items).filter (fun x => decide (x.1 ∉ out.map Prod.fst))
      = c'.policy.items := by
    have hnone : out.filter (fun x => decide (x.1 ∉ out.map Prod.fst)) = [] :=
      List.filter_eq_nil_iff.2 fun x hx hnot =>
        of_decide_eq_true hnot (List.mem_map_of_mem hx)
    rw [List.filter_append, hnone, List.nil_append]
    refine List.filter_eq_self.2 fun x hx => decide_eq_true fun hmem => ?_
    exact hnodup.2.2 x.1 hmem x.1 (List.mem_map_of_mem hx) rfl
  rw [← hleft]
  have hperm := h.items_perm.filter fun x => decide (x.1 ∉ out.map Prod.fst)
  rw [hright] at hperm
  exact hperm

/-- An entry chosen in the first walk alone is cached without being in a pool. -/
theorem chosenSecond_of_pooled (h : c.Leaves p out ids c') (howned : c.Owned)
    (hpooled : ∀ k id, c'.cached.get? k = some id → c'.entries.clients id = 0 → id ∈ c'.policy.ids)
    {x : κ × Sized EntryId} (hx : x ∈ c.policy.items) (hfirst : x.1 ∈ c.chosenFirst p) :
    x.1 ∈ c.chosenSecond p := by
  refine Decidable.byContradiction fun hnot => ?_
  -- the second walk and the eviction leave the row, so it is still cached
  have hstays : c.leaving p out x.1 = false := by
    rw [leaving, Bool.or_eq_false_iff]
    refine ⟨decide_eq_false hnot, decide_eq_false fun hmem => ?_⟩
    obtain ⟨y, hy, hkey⟩ := List.mem_map.1 hmem
    exact (h.of_item (List.mem_append_left _ hy)).2 (hkey ▸ hfirst)
  obtain ⟨hmem, hzero⟩ := howned.mem_idle (List.mem_append_right _ hx)
  have hcached := (h.cached_iff x).2 ⟨hmem, hstays⟩
  have hid := hpooled x.1 x.2.value ((c'.cached.get?_eq_some_iff _ _).2 ⟨_, hcached⟩)
    ((h.clients_eq _).trans hzero)
  -- in the pools after the removal, the entry would have been spared by the first walk
  rw [Policy.ids_eq_map_items] at hid
  obtain ⟨y, hy, hvalue⟩ := List.mem_map.1 hid
  obtain ⟨hyitem, hynot⟩ := h.of_item (List.mem_append_right _ hy)
  rw [howned.eq_of_same_entry (howned.cached_of_item hyitem) hmem hvalue] at hynot
  exact hynot hfirst

/-- An entry chosen in the second walk is not cached under its key any more. -/
theorem not_cached_of_chosenSecond (h : c.Leaves p out ids c') (howned : c.Owned)
    {x : κ × Sized EntryId} (hx : x ∈ c.policy.items) (hsecond : x.1 ∈ c.chosenSecond p)
    {e : Entry κ} (he : c'.entries.get? x.2.value = some e) :
    c'.cached.get? e.key ≠ some x.2.value := by
  -- the entry is still in the table, under the key of its row
  intro hget
  obtain ⟨e₀, he₀, hkey₀, _⟩ := howned.entry_of_cached x (howned.cached_of_item hx)
  rw [h.entries_eq, he₀] at he
  -- a mark does not change the key of the entry
  have hkey : e.key = x.1 := by
    split at he
    · rw [Option.map_some, Option.some.injEq] at he
      rw [← he]
      exact hkey₀
    · rw [Option.some.injEq] at he
      rw [← he]
      exact hkey₀
  rw [hkey] at hget
  obtain ⟨size, hmem⟩ := (c'.cached.get?_eq_some_iff _ _).1 hget
  have hstays := ((h.cached_iff _).1 hmem).2
  rw [leaving, decide_eq_true hsecond, Bool.true_or] at hstays
  exact nomatch hstays

/-- The totals are right afterwards exactly when every exclusive entry chosen in the first walk is chosen
in the second, and every one chosen in the second walk alone has been evicted. -/
theorem accounted_iff (h : c.Leaves p out ids c') (howned : c.Owned) :
    c'.Accounted ↔
      (∀ x ∈ c.policy.items, x.1 ∈ c.chosenFirst p → x.1 ∈ c.chosenSecond p) ∧
      ∀ x ∈ c.policy.items, x.1 ∈ c.chosenSecond p → x.1 ∉ c.chosenFirst p →
        x.2.value ∉ c'.policy.ids := by
  constructor
  · intro haccounted
    refine ⟨fun x hx => h.chosenSecond_of_pooled howned haccounted.pooled hx, ?_⟩
    intro x hx hsecond _ hid
    obtain ⟨e, he, _, hget⟩ := haccounted.cached _ hid
    exact h.not_cached_of_chosenSecond howned hx hsecond he hget
  · rintro ⟨hfirst, hsecond⟩
    refine (h.owned howned hfirst fun x hx hchosen => ?_).accounted
    obtain ⟨hitem, hnot⟩ := h.of_item (List.mem_append_right _ hx)
    refine hsecond x hitem hchosen hnot ?_
    rw [Policy.ids_eq_map_items]
    exact List.mem_map_of_mem hx

end Leaves

/-! ## Removing -/

/-- As many entries are reported as leave the cache through the predicate, whatever it answers. -/
theorem count_removeAll (c : Cache κ) (s : Surroundings) (p : Predicate κ) :
    (c.start.removeMatching p).2.2.cache.count + (c.removeAll s p).1 = c.count := by
  rw [Transition.cache_removeMatching]
  exact c.cached.count_removeAll p _

/-- A removal reports as many entries as leave the cache through the predicate. Before it evicts
anything, the totals are right exactly when the predicate has chosen the same exclusive entries in both
walks. When it returns, they are right exactly when no exclusive entry has been chosen in the first walk
alone, and those chosen in the second walk alone have been evicted. -/
theorem removeAll_accounted_iff (h : c.Owned) (s : Surroundings) (p : Predicate κ) :
    (c.start.removeMatching p).2.2.cache.count + (c.removeAll s p).1 = c.count ∧
      ((c.start.removeMatching p).2.2.cache.Accounted ↔
        ∀ x ∈ c.policy.items, x.1 ∈ c.chosenFirst p ↔ x.1 ∈ c.chosenSecond p) ∧
      ((c.removeAll s p).2.2.cache.Accounted ↔
        (∀ x ∈ c.policy.items, x.1 ∈ c.chosenFirst p → x.1 ∈ c.chosenSecond p) ∧
        ∀ x ∈ c.policy.items, x.1 ∈ c.chosenSecond p → x.1 ∉ c.chosenFirst p →
          x.2.value ∉ (c.removeAll s p).2.2.cache.policy.ids) := by
  refine ⟨c.count_removeAll s p, ?_, ?_⟩
  · have hleaves := removeMatching_leaves h p
    -- before an eviction, all that is exclusive was spared by the first walk
    rw [hleaves.accounted_iff h]
    constructor
    · rintro ⟨hfirst, hsecond⟩ x hx
      refine ⟨hfirst x hx, fun hchosen => Decidable.byContradiction fun hnot => ?_⟩
      have hitem := hleaves.items_perm.mem_iff.1 (List.mem_filter.2 ⟨hx, decide_eq_true hnot⟩)
      refine hsecond x hx hchosen hnot ?_
      rw [Policy.ids_eq_map_items]
      exact List.mem_map_of_mem hitem
    · intro hagree
      exact ⟨fun x hx => (hagree x hx).1, fun x hx hchosen hnot =>
        absurd ((hagree x hx).2 hchosen) hnot⟩
  · obtain ⟨out, ids, hleaves⟩ := removeAll_leaves h s p
    exact hleaves.accounted_iff h

/-- The predicate that accepts whatever key it is asked about first, and no other. -/
def firstAsked : Predicate Nat where
  answer asked _ := asked.isEmpty

/-- A session in which one value is cached, and nobody holds it. -/
def oneExclusive : Session Nat :=
  (Session.start {}).runAll [.request (.put 1 { tag := "a", size := 10 } none none)]

/-- The key is chosen in the first walk only. Nothing is reported, and the entry stays cached without
being in a pool: it counts as in use, though nobody holds it. -/
theorem removeAll_accounted_iff_firstAsked :
    oneExclusive.cache.Owned ∧
      (oneExclusive.cache.removeAll oneExclusive.surroundings firstAsked).1 = 0 ∧
      (oneExclusive.cache.removeAll oneExclusive.surroundings firstAsked).2.2.cache.inUseCount = 1 ∧
      (oneExclusive.cache.removeAll oneExclusive.surroundings firstAsked).2.2.cache.busy = [] ∧
      ¬ (oneExclusive.cache.removeAll oneExclusive.surroundings
        firstAsked).2.2.cache.Accounted := by
  have hreachable : oneExclusive.Reachable := by
    refine ⟨{}, [.request (.put 1 { tag := "a", size := 10 } none none)],
      (fun _ hr => nomatch hr), fun step hstep => ?_, rfl⟩
    rw [List.mem_singleton.1 hstep]
    trivial
  have howned := hreachable.atRest.consistent.owned
  refine ⟨howned, by decide +kernel, by decide +kernel, by decide +kernel, fun haccounted => ?_⟩
  obtain ⟨_, _, hiff⟩ := removeAll_accounted_iff howned oneExclusive.surroundings firstAsked
  obtain ⟨hfirst, _⟩ := hiff.1 haccounted
  -- the only exclusive entry is chosen the first time and spared the second
  have hitem : (1, ⟨0, 10⟩) ∈ oneExclusive.cache.policy.items := by decide +kernel
  have hchosen : 1 ∈ oneExclusive.cache.chosenFirst firstAsked := by decide +kernel
  have hnot : 1 ∉ oneExclusive.cache.chosenSecond firstAsked := by decide +kernel
  exact hnot (hfirst _ hitem hchosen)

/-- The predicate that accepts whatever key it is asked about second, and no other. -/
def secondAsked : Predicate Nat where
  answer asked _ := asked.length = 1

/-- The key is chosen in the second walk only, which leaves one entry in the pool and none cached. So many entries
count as in use that no room is left for the one in the pool, and it is evicted. -/
example :
    (oneExclusive.cache.start.removeMatching secondAsked).2.2.cache.inUseCount = UInt64.size - 1 ∧
      (oneExclusive.cache.removeAll oneExclusive.surroundings secondAsked).2.2.cache.policy.count = 0 := by
  decide +kernel

end Cache

end RefCache
