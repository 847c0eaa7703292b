import RefCache.Proofs.Eviction

/-!
# The exclusive entries of a policy

Both policies keep the exclusive entries in pools. `Policy.items` lists them all, pool by pool and
oldest first, with their keys and recorded sizes, and every operation of a policy is described by
what it does to that list, up to order where it moves an entry:

* `items_remove`, `items_removeAll`  drop the rows of the keys taken out
* `items_enqueue`, `items_probe`     bring an entry in, or in again
* `evict_yields`, `trim_yields`      take out what is evicted, and nothing else
* `items_onMiss`, `items_emptied`    learn, or forget everything

After this file no proof needs to look at the pools of a policy again, except for their order and
their shares.
-/

namespace RefCache

universe u v

/-! ## One row per key -/

/-- The row of a key can be brought to the front of the rows with other keys. -/
theorem perm_cons_filter_key {α : Type u} {β : Type v} [DecidableEq α] {l : List (α × β)}
    {x : α × β} (hnodup : (l.map Prod.fst).Nodup) (hx : x ∈ l) :
    l.Perm (x :: l.filter (·.1 ≠ x.1)) := by
  induction l with
  | nil => exact nomatch hx
  | cons y rest ih =>
    rw [List.map_cons, List.nodup_cons] at hnodup
    -- no other row has the key of the one looked for
    rcases List.mem_cons.1 hx with rfl | hrest
    · have hself : rest.filter (·.1 ≠ x.1) = rest := by
        refine List.filter_eq_self.2 fun z hz => ?_
        have hne : z.1 ≠ x.1 := fun heq => hnodup.1 (heq ▸ List.mem_map_of_mem hz)
        simpa using hne
      rw [List.filter_cons_of_neg (by simp), hself]
    · have hne : y.1 ≠ x.1 := fun heq => hnodup.1 (heq ▸ List.mem_map_of_mem hrest)
      rw [List.filter_cons_of_pos (by simpa using hne)]
      exact ((ih hnodup.2 hrest).cons y).trans (.swap x y _)

/-- The row of a key is the only one there. -/
theorem filter_key_of_mem {α : Type u} {β : Type v} [DecidableEq α] {l : List (α × β)} {x : α × β}
    (hnodup : (l.map Prod.fst).Nodup) (hx : x ∈ l) : l.filter (·.1 = x.1) = [x] := by
  have hperm := (perm_cons_filter_key hnodup hx).filter (fun y => decide (y.1 = x.1))
  have hnone : l.filter (fun y => decide (y.1 = x.1) && decide (y.1 ≠ x.1)) = [] :=
    List.filter_eq_nil_iff.2 fun y _ => by simp
  rw [List.filter_cons_of_pos (by simp), List.filter_filter, hnone] at hperm
  exact List.perm_singleton.1 hperm

namespace Policy

variable {κ : Type u} [Key κ]

/-- The exclusive entries with their keys and sizes, pool by pool, oldest first. -/
def items (p : Policy κ) : List (κ × Sized EntryId) :=
  p.pools.flatMap fun pool => pool.entries.toList

theorem items_lru (queue : Pool κ) : (lru queue).items = queue.entries.toList := by
  simp [items, pools]

theorem items_adaptive (a : Adaptive κ) :
    (adaptive a).items = a.lfu.entries.toList ++ a.mfu.entries.toList := by
  simp [items, pools]

/-! ## Views of the list -/

theorem ids_eq_map_items (p : Policy κ) : p.ids = p.items.map (·.2.value) := by
  rw [ids, items, List.map_flatMap]
  rfl

theorem count_eq_length (p : Policy κ) : p.count = p.items.length := by
  cases p with
  | lru queue => rw [items_lru, count, Pool.count_eq_length]
  | adaptive a =>
    rw [items_adaptive, count, Pool.count_eq_length, Pool.count_eq_length, List.length_append]

theorem size_eq_totalOf (p : Policy κ) : p.size = totalOf (fun x => x.2.size) p.items := by
  cases p with
  | lru queue => rw [items_lru, size, Pool.size_eq_totalOf]
  | adaptive a =>
    rw [items_adaptive, size, Pool.size_eq_totalOf, Pool.size_eq_totalOf, totalOf_append]

theorem contains_iff_mem_items (p : Policy κ) (k : κ) :
    p.contains k = true ↔ ∃ x ∈ p.items, x.1 = k := by
  have hpool : ∀ q : Pool κ, q.contains k = true ↔ ∃ x ∈ q.entries.toList, x.1 = k := by
    intro q
    rw [Pool.contains, SizedMap.contains_iff_mem_keys, SizedMap.keys_eq, List.mem_map]
  cases p with
  | lru queue => rw [items_lru, contains, hpool]
  | adaptive a =>
    -- a key is exclusive when one of the halves has it
    simp only [items_adaptive, contains, Bool.or_eq_true, hpool, List.mem_append]
    constructor
    · rintro (⟨x, hx, rfl⟩ | ⟨x, hx, rfl⟩)
      · exact ⟨x, Or.inl hx, rfl⟩
      · exact ⟨x, Or.inr hx, rfl⟩
    · rintro ⟨x, hx | hx, rfl⟩
      · exact Or.inl ⟨x, hx, rfl⟩
      · exact Or.inr ⟨x, hx, rfl⟩

theorem holds_iff_mem_items (p : Policy κ) (k : κ) (id : EntryId) :
    p.holds k id = true ↔ ∃ size, (k, ⟨id, size⟩) ∈ p.items := by
  simp only [holds, items, List.any_eq_true, decide_eq_true_eq, SizedMap.get?_eq_some_iff,
    List.mem_flatMap]
  constructor
  · rintro ⟨pool, hpool, size, hmem⟩
    exact ⟨size, pool, hpool, hmem⟩
  · rintro ⟨size, pool, hpool, hmem⟩
    exact ⟨pool, hpool, size, hmem⟩

/-! ## Taking entries out -/

/-- Taking a key out drops its row from every pool. -/
theorem items_remove (p : Policy κ) (k : κ) :
    (p.remove k).2.items = p.items.filter (·.1 ≠ k) := by
  cases p with
  | lru queue =>
    show (lru (queue.remove k).2).items = _
    rw [items_lru, items_lru, Pool.remove, SizedMap.toList_erase]
  | adaptive a =>
    show (adaptive (a.remove k).2).items = _
    rw [items_adaptive, items_adaptive, List.filter_append]
    simp only [Adaptive.remove, Pool.remove, SizedMap.toList_erase]

theorem count_remove_le (p : Policy κ) (k : κ) : (p.remove k).2.count ≤ p.count := by
  rw [count_eq_length, count_eq_length, items_remove]
  exact List.length_filter_le _ _

theorem size_remove_le (p : Policy κ) (k : κ) : (p.remove k).2.size ≤ p.size := by
  rw [size_eq_totalOf, size_eq_totalOf, items_remove]
  exact totalOf_le_of_sublist _ List.filter_sublist

/-- Nothing is found exactly when no exclusive entry has the key. -/
theorem remove_eq_none_iff (p : Policy κ) (k : κ) :
    (p.remove k).1 = none ↔ ∀ x ∈ p.items, x.1 ≠ k := by
  -- one pool first; the adaptive policy asks both
  have hpool : ∀ q : Pool κ, (q.remove k).1 = none ↔ ∀ x ∈ q.entries.toList, x.1 ≠ k := by
    intro q
    rw [Pool.remove, SizedMap.get?_eq_none_iff, SizedMap.keys_eq, List.mem_map]
    constructor
    · exact fun h x hx heq => h ⟨x, hx, heq⟩
    · rintro h ⟨x, hx, heq⟩
      exact h x hx heq
  cases p with
  | lru queue =>
    rw [items_lru]
    exact hpool queue
  | adaptive a =>
    show (a.lfu.remove k).1.or (a.mfu.remove k).1 = none ↔ _
    rw [Option.or_eq_none_iff, hpool, hpool, items_adaptive]
    constructor
    · rintro ⟨hlfu, hmfu⟩ x hx
      exact (List.mem_append.1 hx).elim (hlfu x) (hmfu x)
    · intro h
      exact ⟨fun x hx => h x (List.mem_append_left _ hx),
        fun x hx => h x (List.mem_append_right _ hx)⟩

/-- What is found was listed under the key. -/
theorem mem_items_of_remove (p : Policy κ) (k : κ) (id : EntryId) (h : (p.remove k).1 = some id) :
    ∃ size, (k, ⟨id, size⟩) ∈ p.items := by
  -- in one pool, what is found under the key is the row of the key
  have hpool : ∀ q : Pool κ, (q.remove k).1 = some id →
      ∃ size, (k, ⟨id, size⟩) ∈ q.entries.toList := by
    intro q hq
    exact (q.entries.get?_eq_some_iff k id).1 hq
  cases p with
  | lru queue =>
    rw [items_lru]
    exact hpool queue h
  | adaptive a =>
    rw [items_adaptive]
    change (a.lfu.remove k).1.or (a.mfu.remove k).1 = some id at h
    -- found in the first pool, or in the second when the first has nothing
    rcases Option.or_eq_some_iff.1 h with hlfu | ⟨_, hmfu⟩
    · obtain ⟨size, hmem⟩ := hpool a.lfu hlfu
      exact ⟨size, List.mem_append_left _ hmem⟩
    · obtain ⟨size, hmem⟩ := hpool a.mfu hmfu
      exact ⟨size, List.mem_append_right _ hmem⟩

/-- The keys and entries that a predicate chooses, asked pool by pool. -/
def chosen (p : Policy κ) (pred : Predicate κ) (asked : List κ) : List (κ × EntryId) :=
  pred.choose asked (p.items.map fun x => (x.1, x.2.value))

/-- What is taken out is what the predicate chose. -/
theorem removeAll_fst (p : Policy κ) (pred : Predicate κ) (asked : List κ) :
    (p.removeAll pred asked).1 = (p.chosen pred asked).map Prod.snd := by
  cases p with
  | lru queue =>
    rw [chosen, items_lru]
    rfl
  | adaptive a =>
    rw [chosen, items_adaptive, List.map_append, Predicate.choose_append, List.map_append,
      List.map_map]
    rfl

/-- What a predicate takes out was exclusive. -/
theorem mem_ids_of_removeAll {p : Policy κ} {pred : Predicate κ} {asked : List κ} {id : EntryId}
    (h : id ∈ (p.removeAll pred asked).1) : id ∈ p.ids := by
  rw [removeAll_fst, List.mem_map] at h
  obtain ⟨x, hx, rfl⟩ := h
  obtain ⟨y, hy, rfl⟩ := List.mem_map.1 ((pred.choose_sublist _ _).subset hx)
  rw [ids_eq_map_items]
  exact List.mem_map_of_mem hy

/-- The rows of the keys that the predicate chose are dropped. -/
theorem items_removeAll (p : Policy κ) (pred : Predicate κ) (asked : List κ)
    (hnodup : (p.items.map Prod.fst).Nodup) :
    (p.removeAll pred asked).2.items
      = p.items.filter fun x => decide (x.1 ∉ (p.chosen pred asked).map Prod.fst) := by
  cases p with
  | lru queue =>
    rw [chosen]
    show (lru (queue.removeAll pred asked).2).items = _
    rw [items_lru, items_lru, Pool.removeAll, SizedMap.removeAll, SizedMap.toList_eraseMany]
    rfl
  | adaptive a =>
    rw [items_adaptive, List.map_append] at hnodup
    rw [chosen, items_adaptive, List.map_append, Predicate.choose_append, List.map_append,
      List.filter_append]
    show (adaptive (a.removeAll pred asked).2).items = _
    rw [items_adaptive]
    simp only [Adaptive.removeAll, Pool.removeAll, SizedMap.removeAll, SizedMap.toList_eraseMany]
    -- a key chosen from one pool is no key of the other, so it drops nothing there
    have hdisjoint := (List.nodup_append.1 hnodup).2.2
    have hsub : ∀ (q : Pool κ) (ask : List κ) (k : κ),
        k ∈ (q.entries.matching pred ask).map Prod.fst → k ∈ q.entries.toList.map Prod.fst := by
      intro q ask k hk
      obtain ⟨e, he, rfl⟩ := List.mem_map.1 hk
      obtain ⟨x, hx, rfl⟩ := List.mem_map.1 ((pred.choose_sublist _ _).subset he)
      exact List.mem_map_of_mem hx
    -- in each half, the keys chosen from the other one change nothing
    congr 1
    · refine List.filter_congr fun x hx => decide_eq_decide.2 ?_
      rw [List.mem_append, not_or]
      refine ⟨fun h => ⟨h, fun hk => ?_⟩, fun h => h.1⟩
      have hmfu := hsub a.mfu (a.lfu.entries.askedAfter asked) x.1 (by
        rw [List.map_map] at hk
        exact hk)
      exact hdisjoint x.1 (List.mem_map_of_mem hx) x.1 hmfu rfl
    · refine List.filter_congr fun x hx => decide_eq_decide.2 ?_
      rw [List.mem_append, not_or]
      refine ⟨fun h => ⟨fun hk => ?_, ?_⟩, fun h => ?_⟩
      · exact hdisjoint x.1 (hsub a.lfu asked x.1 hk) x.1 (List.mem_map_of_mem hx) rfl
      · rw [List.map_map]
        exact h
      · have := h.2
        rw [List.map_map] at this
        exact this

/-- A predicate that looks at the key alone drops the rows whose key it accepts. -/
theorem items_removeAll_of_keyDetermined (p : Policy κ) {pred : Predicate κ}
    (hpred : pred.KeyDetermined) (asked : List κ) (hnodup : (p.items.map Prod.fst).Nodup) :
    (p.removeAll pred asked).2.items = p.items.filter fun x => !pred.answer [] x.1 := by
  rw [items_removeAll p pred asked hnodup]
  exact hpred.filter_not_chosen asked p.items Sized.value

/-- What a policy evicts, it takes out, and nothing else. -/
def Yields (p : Policy κ) (ids : List EntryId) (p' : Policy κ) : Prop :=
  ∃ out : List (κ × Sized EntryId), ids = out.map (·.2.value) ∧ p.items.Perm (out ++ p'.items)

/-- A policy gives up nothing but exclusive entries. -/
theorem Yields.mem_ids {p p' : Policy κ} {ids : List EntryId} (h : p.Yields ids p') :
    ∀ id ∈ ids, id ∈ p.ids := by
  obtain ⟨out, rfl, hperm⟩ := h
  intro id hid
  obtain ⟨x, hx, rfl⟩ := List.mem_map.1 hid
  rw [ids_eq_map_items]
  exact List.mem_map_of_mem (hperm.mem_iff.2 (List.mem_append_left _ hx))

/-- What is left is no larger. -/
theorem Yields.size_le {p p' : Policy κ} {ids : List EntryId} (h : p.Yields ids p') :
    p'.size ≤ p.size := by
  obtain ⟨out, _, hperm⟩ := h
  rw [size_eq_totalOf, size_eq_totalOf, totalOf_perm _ hperm, totalOf_append]
  exact Nat.le_add_left _ _

private theorem yields_of_trims {a a' : Adaptive κ} {ids₁ ids₂ : List EntryId}
    (h₁ : ∃ out, ids₁ = out.map (·.2.value) ∧
      a.lfu.entries.toList = out ++ a'.lfu.entries.toList)
    (h₂ : ∃ out, ids₂ = out.map (·.2.value) ∧
      a.mfu.entries.toList = out ++ a'.mfu.entries.toList) :
    (adaptive a).Yields (ids₁ ++ ids₂) (adaptive a') := by
  obtain ⟨out₁, rfl, hlfu⟩ := h₁
  obtain ⟨out₂, rfl, hmfu⟩ := h₂
  refine ⟨out₁ ++ out₂, List.map_append.symm, ?_⟩
  rw [items_adaptive, items_adaptive, hlfu, hmfu, List.append_assoc, List.append_assoc]
  refine List.Perm.append_left out₁ ?_
  rw [← List.append_assoc, ← List.append_assoc]
  exact List.perm_append_comm.append_right _

private theorem yields_of_trim {queue queue' : Pool κ} {ids : List EntryId}
    (h : ∃ out, ids = out.map (·.2.value) ∧
      queue.entries.toList = out ++ queue'.entries.toList) :
    (lru queue).Yields ids (lru queue') := by
  obtain ⟨out, hids, hsplit⟩ := h
  refine ⟨out, hids, ?_⟩
  rw [items_lru, items_lru, hsplit]

theorem evict_yields (p : Policy κ) (accesses : EntryId → Nat) (maxCount maxSize : Nat) :
    p.Yields (p.evict accesses maxCount maxSize).1 (p.evict accesses maxCount maxSize).2 := by
  cases p with
  | lru queue => exact yields_of_trim (queue.trimTo_prefix accesses maxCount maxSize)
  | adaptive a => exact yields_of_trims (a.lfu.trimTo_prefix _ _ _) (a.mfu.trimTo_prefix _ _ _)

theorem trim_yields (p : Policy κ) (accesses : EntryId → Nat) (target : Nat) :
    p.Yields (p.trim accesses target).1 (p.trim accesses target).2 := by
  cases p with
  | lru queue => exact yields_of_trim (queue.trimTo_prefix accesses queue.count target)
  | adaptive a => exact yields_of_trims (a.lfu.trimTo_prefix _ _ _) (a.mfu.trimTo_prefix _ _ _)

/-- Taking out the entry under a key, if there is one. -/
theorem remove_yields (p : Policy κ) (hnodup : (p.items.map Prod.fst).Nodup) (k : κ) :
    p.Yields (p.remove k).1.toList (p.remove k).2 := by
  have hitems := p.items_remove k
  cases hfound : (p.remove k).1 with
  | none =>
    refine ⟨[], rfl, ?_⟩
    have hself : p.items.filter (·.1 ≠ k) = p.items :=
      List.filter_eq_self.2 fun x hx => by simpa using (p.remove_eq_none_iff k).1 hfound x hx
    rw [hitems, hself, List.nil_append]
  | some id =>
    obtain ⟨size, hmem⟩ := p.mem_items_of_remove k id hfound
    refine ⟨[(k, ⟨id, size⟩)], rfl, ?_⟩
    rw [hitems]
    exact perm_cons_filter_key hnodup hmem

/-- A predicate that looks at the key alone takes out the rows whose key it accepts. -/
theorem removeAll_yields (p : Policy κ) {pred : Predicate κ} (hpred : pred.KeyDetermined)
    (asked : List κ) (hnodup : (p.items.map Prod.fst).Nodup) :
    p.Yields (p.removeAll pred asked).1 (p.removeAll pred asked).2 := by
  refine ⟨p.items.filter fun x => pred.answer [] x.1, ?_, ?_⟩
  · rw [removeAll_fst, chosen, hpred.choose_eq_filter, List.filter_map, List.map_map]
    rfl
  · rw [p.items_removeAll_of_keyDetermined hpred asked hnodup]
    exact (List.filter_append_perm _ _).symm

/-! ## Bringing entries in -/

/-- An entry under a new key is one more exclusive entry. -/
theorem items_enqueue (p : Policy κ) (id : EntryId) (e : Entry κ)
    (hnew : ∀ x ∈ p.items, x.1 ≠ e.key) :
    (p.enqueue id e).items.Perm ((e.key, ⟨id, e.size⟩) :: p.items) := by
  -- a pool without the key gets the row at its end
  have hput : ∀ q : Pool κ, (∀ x ∈ q.entries.toList, x.1 ≠ e.key) →
      (q.put id e).entries.toList = q.entries.toList ++ [(e.key, ⟨id, e.size⟩)] := fun q hq =>
    q.entries.toList_put_of_new hq id e.size
  cases p with
  | lru queue =>
    rw [items_lru] at hnew ⊢
    show (lru (queue.put id e)).items.Perm _
    rw [items_lru, hput queue hnew]
    exact List.perm_append_singleton _ _
  | adaptive a =>
    rw [items_adaptive] at hnew ⊢
    show (adaptive (a.enqueue id e)).items.Perm _
    rw [items_adaptive]
    unfold Adaptive.enqueue
    split
    · -- the uses decide which half takes the entry in
      rw [hput a.mfu fun x hx => hnew x (List.mem_append_right _ hx), ← List.append_assoc]
      exact List.perm_append_singleton _ _
    · rw [hput a.lfu fun x hx => hnew x (List.mem_append_left _ hx), List.append_assoc]
      exact List.perm_middle

/-- What is not there cannot be probed. -/
theorem probe_of_absent {p : Policy κ} {k : κ} (habsent : (p.remove k).1 = none) (table : EntryTable κ) :
    p.probe table k = ((p.remove k).2, table) := by
  unfold probe
  dsimp only
  rw [habsent]

section

variable {table : EntryTable κ} {k : κ} {id : EntryId} {e : Entry κ}

/-- A single queue puts what is found at its end, and counts no use of it. -/
theorem probe_lru_of_found {queue : Pool κ} (hfound : ((lru queue).remove k).1 = some id)
    (he : table.get? id = some e) :
    (lru queue).probe table k = (((lru queue).remove k).2.enqueue id e, table) := by
  unfold probe
  dsimp only
  rw [hfound]
  dsimp only
  rw [he]

/-- The adaptive policy counts a use of what is found before it chooses the pool. -/
theorem probe_adaptive_of_found {a : Adaptive κ} (hfound : ((adaptive a).remove k).1 = some id)
    (he : table.get? id = some e) : (adaptive a).probe table k =
      (((adaptive a).remove k).2.enqueue id e.recordAccess, table.update id Entry.recordAccess) := by
  unfold probe
  dsimp only
  rw [hfound]
  dsimp only
  rw [Register.get?_update, if_pos rfl, he]
  rfl

end

/-- A probe takes out what is found under the key, and puts it back if it is in the table. -/
theorem probe_fst_cases (p : Policy κ) (table : EntryTable κ) (k : κ) :
    (p.probe table k).1 = (p.remove k).2 ∨
      ∃ id e, (p.remove k).1 = some id ∧ (p.probe table k).1 = (p.remove k).2.enqueue id e := by
  unfold probe
  dsimp only
  split
  · exact .inl rfl
  · rename_i id hfound
    split
    · exact .inl rfl
    · rename_i e _
      exact .inr ⟨id, e, hfound, rfl⟩

/-- A probe changes the table of entries at most by counting a use. -/
theorem probe_entries (p : Policy κ) (table : EntryTable κ) (k : κ) :
    (p.probe table k).2 = table ∨ ∃ id, (p.probe table k).2 = table.update id Entry.recordAccess := by
  unfold probe
  cases p with
  | lru queue =>
    -- the queue counts no uses
    left
    dsimp only
    split
    · rfl
    · split <;> rfl
  | adaptive a =>
    dsimp only
    split
    · exact .inl rfl
    · rename_i id _
      split <;> exact .inr ⟨id, rfl⟩

/-- A probe moves an entry to a new place and loses none, when the table knows the rows. -/
theorem items_probe (p : Policy κ) (table : EntryTable κ) (k : κ)
    (hnodup : (p.items.map Prod.fst).Nodup)
    (hrows : ∀ x ∈ p.items, ∃ e, table.get? x.2.value = some e ∧ e.key = x.1 ∧ e.size = x.2.size) :
    (p.probe table k).1.items.Perm p.items := by
  have hitems := p.items_remove k
  cases hfound : (p.remove k).1 with
  | none =>
    have hself : p.items.filter (·.1 ≠ k) = p.items := by
      refine List.filter_eq_self.2 fun x hx => ?_
      simpa using (p.remove_eq_none_iff k).1 hfound x hx
    rw [probe_of_absent hfound, hitems, hself]
  | some id =>
    obtain ⟨size, hmem⟩ := p.mem_items_of_remove k id hfound
    obtain ⟨e, he, rfl, rfl⟩ := hrows _ hmem
    -- a use that is counted on the way shows neither in the key nor in the size
    have hprobe : ∃ e', (p.probe table e.key).1 = (p.remove e.key).2.enqueue id e' ∧
        e'.key = e.key ∧ e'.size = e.size := by
      cases p with
      | lru queue => exact ⟨e, congrArg Prod.fst (probe_lru_of_found hfound he), rfl, rfl⟩
      | adaptive a => exact ⟨e.recordAccess, congrArg Prod.fst (probe_adaptive_of_found hfound he), rfl, rfl⟩
    obtain ⟨e', hprobe, hkey, hsize⟩ := hprobe
    -- the key has just been taken out, so there is room for it
    have hnew : ∀ x ∈ (p.remove e.key).2.items, x.1 ≠ e'.key := by
      intro x hx
      rw [hitems, List.mem_filter] at hx
      rw [hkey]
      simpa using hx.2
    have hback := items_enqueue _ id e' hnew
    rw [hkey, hsize, hitems] at hback
    rw [hprobe]
    exact hback.trans (perm_cons_filter_key hnodup hmem).symm

/-- A step of the fraction, taken or not, leaves the pools alone. -/
theorem pools_growFraction (a : Adaptive κ) :
    a.growFraction.lfu = a.lfu ∧ a.growFraction.mfu = a.mfu := by
  unfold Adaptive.growFraction
  split <;> exact ⟨rfl, rfl⟩

theorem pools_shrinkFraction (a : Adaptive κ) :
    a.shrinkFraction.lfu = a.lfu ∧ a.shrinkFraction.mfu = a.mfu := by
  unfold Adaptive.shrinkFraction
  split <;> exact ⟨rfl, rfl⟩

/-- A miss teaches the ghosts and the fraction, not the exclusive entries. -/
@[simp] theorem items_onMiss (p : Policy κ) (k : κ) : (p.onMiss k).items = p.items := by
  cases p with
  | lru queue => rfl
  | adaptive a =>
    have hentries : (a.onMiss k).lfu.entries = a.lfu.entries ∧
        (a.onMiss k).mfu.entries = a.mfu.entries := by
      -- ghosts and fraction are beside the entries
      unfold Adaptive.onMiss
      dsimp only
      split
      · rw [(pools_growFraction _).1, (pools_growFraction _).2]
        exact ⟨rfl, rfl⟩
      · split
        · rw [(pools_shrinkFraction _).1, (pools_shrinkFraction _).2]
          exact ⟨rfl, rfl⟩
        · exact ⟨rfl, rfl⟩
    show (adaptive (a.onMiss k)).items = _
    rw [items_adaptive, items_adaptive, hentries.1, hentries.2]

@[simp] theorem items_emptied (p : Policy κ) : p.emptied.items = [] := by
  cases p with
  | lru queue => exact items_lru _
  | adaptive a => exact items_adaptive _

theorem items_newLru : (newLru : Policy κ).items = [] :=
  items_lru _

theorem items_newAdaptive (t : Tuning) : (newAdaptive t : Policy κ).items = [] :=
  items_adaptive _

end Policy

end RefCache
