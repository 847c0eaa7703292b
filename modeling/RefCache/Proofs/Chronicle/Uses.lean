import RefCache.Proofs.Chronicle.Basic
import RefCache.Proofs.Ownership.Discard

/-!
# What operations do to the policy, and how they count uses

`Cache.policyAfter` says operation by operation what becomes of the policy until the operation evicts, and
`policy_apply` adds the eviction. An entry is used when a reference to it is handed out
(`Cache.handsOut`) and, with the adaptive policy, when a probe finds it exclusive (`Cache.probed`). Nothing
else touches the number of its uses (`Asked.Ready.accesses_after`), which a new entry inherits from the
policy (`Asked.Ready.accesses_new`).
-/

namespace RefCache

universe u

variable {κ : Type u}

/-! ## Reading uses off the table -/

namespace EntryTable

theorem accesses_of_get? {t : EntryTable κ} {id : EntryId} {e : Entry κ} (he : t.get? id = some e) :
    t.accesses id = e.accesses :=
  t.readout_of_some Entry.accesses he

theorem accesses_add (t : EntryTable κ) (e : Entry κ) (id : EntryId) :
    EntryTable.accesses (t.add e) id = if t.next = id then e.accesses else t.accesses id :=
  t.readout_add e Entry.accesses id

/-- A change that is no use. -/
theorem accesses_update (t : EntryTable κ) (i j : EntryId) {change : Entry κ → Entry κ}
    (h : ∀ e : Entry κ, (change e).accesses = e.accesses) :
    EntryTable.accesses (t.update i change) j = t.accesses j := by
  rw [accesses, Register.get?_update]
  split
  · rename_i hij
    subst hij
    cases hget : t.get? i with
    | none => simp [accesses, hget]
    | some e => simp [accesses, hget, h]
  · rfl

/-- A change that is one use. -/
theorem accesses_use {t : EntryTable κ} {i : EntryId} {e : Entry κ} (he : t.get? i = some e)
    {change : Entry κ → Entry κ} (h : (change e).accesses = e.accesses + 1) (j : EntryId) :
    EntryTable.accesses (t.update i change) j = t.accesses j + if i = j then 1 else 0 := by
  have hread := t.readout_update he change Entry.accesses j
  rw [h] at hread
  rw [show EntryTable.accesses (t.update i change) j = _ from hread]
  split
  · rename_i hij
    rw [← hij, accesses_of_get? he]
  · rfl

theorem accesses_foldl_markOrphan (t : EntryTable κ) (ids : List EntryId) (id : EntryId) :
    EntryTable.accesses (ids.foldl (fun t id => t.update id Entry.markOrphan) t) id
      = t.accesses id := by
  induction ids generalizing t with
  | nil => rfl
  | cons i rest ih =>
    rw [List.foldl_cons, ih]
    exact t.accesses_update i id fun _ => rfl

end EntryTable

variable [Key κ]

/-! ## Steps -/

namespace Transition

variable (t : Transition κ)

theorem policy_detach (k : κ) : (t.detach k).2.cache.policy = t.cache.policy := by
  unfold detach
  split <;> rfl

theorem policy_unqueue (k : κ) : (t.unqueue k).2.cache.policy = (t.cache.policy.remove k).2 := by
  rw [cache_unqueue]

/-- What leaves the queue stays cached. -/
theorem cached_unqueue_start (c : Cache κ) (k : κ) : (c.start.unqueue k).2.cache.cached = c.cached := by
  rw [cache_unqueue]
  rfl

theorem policy_supersede (k : κ) : (t.supersede k).cache.policy = (t.cache.policy.remove k).2 := by
  have hdetach := (t.unqueue k).2.policy_detach k
  rw [policy_unqueue] at hdetach
  unfold supersede
  dsimp only
  split <;> exact hdetach

theorem policy_accept (k : κ) (value : ValueId) (size : Nat) (observer : Option String) :
    (t.accept k value size observer).2.cache.policy = t.cache.policy :=
  rfl

/-- To make room for a new value is no use of the old one. -/
theorem entries_supersede (k : κ) (id : EntryId) :
    (t.supersede k).cache.entries.accesses id = t.cache.entries.accesses id ∧
      (t.supersede k).cache.entries.next = t.cache.entries.next := by
  have hdetach : ((t.unqueue k).2.detach k).2.cache.entries = t.cache.entries := by
    rw [entries_detach, entries_unqueue]
  unfold supersede
  dsimp only
  -- what is cached under the key gets a mark as an orphan at most
  split
  · rw [hdetach]
    exact ⟨rfl, rfl⟩
  · rename_i j _
    have horphan : (((t.unqueue k).2.detach k).2.orphan j).cache.entries
        = t.cache.entries.update j Entry.markOrphan := by rw [← hdetach]; rfl
    rw [horphan]
    exact ⟨EntryTable.accesses_update _ _ _ fun _ => rfl, Register.next_update _ _ _⟩

/-- To lose an entry is no use of it. -/
theorem accesses_discardOne (j id : EntryId) :
    (t.discardOne j).cache.entries.accesses id = t.cache.entries.accesses id := by
  unfold discardOne
  split
  · rfl
  · rename_i e _
    show EntryTable.accesses ((t.detach e.key).2.cache.entries.update j Entry.markOrphan) id = _
    rw [entries_detach]
    exact EntryTable.accesses_update _ _ _ fun _ => rfl

theorem accesses_foldl_discardOne (ids : List EntryId) (id : EntryId) :
    (ids.foldl discardOne t).cache.entries.accesses id = t.cache.entries.accesses id := by
  induction ids generalizing t with
  | nil => rfl
  | cons j rest ih =>
    rw [List.foldl_cons, ih]
    exact t.accesses_discardOne j id

theorem accesses_discard (ids : List EntryId) (id : EntryId) :
    (t.discard ids).cache.entries.accesses id = t.cache.entries.accesses id := by
  unfold discard
  split
  · rfl
  · exact accesses_foldl_discardOne _ ids id

theorem accesses_evict (id : EntryId) :
    t.evict.cache.entries.accesses id = t.cache.entries.accesses id := by
  rw [evict_eq, accesses_discard]
  rfl

theorem policy_settle_release (c : Cache κ) (id : EntryId) :
    ((c.start.updateEntry id Entry.dropClient).settle id).cache.policy =
      match c.entries.get? id with
      | none => c.policy
      | some e =>
        if e.dropClient.clients = 0 ∧ e.orphan = false then c.policy.enqueue id e.dropClient
        else c.policy := by
  let t := c.start.updateEntry id Entry.dropClient
  have hget : t.cache.entries.get? id = (c.entries.get? id).map Entry.dropClient := by
    show Register.get? (c.entries.update id Entry.dropClient) id = _
    rw [Register.get?_update, if_pos rfl]
  -- the entry that the settling looks at is the one that a client has left
  cases he : c.entries.get? id with
  | none =>
    rw [he] at hget
    rw [settle_of_none hget]
    rfl
  | some e =>
    rw [he] at hget
    dsimp only
    split
    · rename_i hidle
      rw [settle_of_idle hget hidle]
      rfl
    · rename_i hnot
      rw [settle_of_not_idle hget hnot]
      rfl

end Transition

namespace Cache

/-! ## The policy -/

/-- What an operation makes of the policy until it evicts. -/
def policyAfter (c : Cache κ) : Operation κ → Policy κ
  | .store s k value size observer =>
    match (c.store s k value size observer).1 with
    | none => c.policy
    | some _ => (c.policy.remove k).2
  | .get _ k =>
    match c.cached.get? k with
    | none => (c.policy.remove k).2.onMiss k
    | some _ => (c.policy.remove k).2
  | .probe k => (c.policy.probe c.entries k).1
  | .reuse k => (c.policy.remove k).2
  | .removeAll _ p => (c.policy.removeAll p []).2
  | .clear _ => (c.policy.removeAll .always []).2
  | .trim _ _ ratio => (c.policy.trim c.entries.accesses (c.trimTarget ratio)).2
  | .release _ id =>
    match c.entries.get? id with
    | none => c.policy
    | some e =>
      if e.dropClient.clients = 0 ∧ e.orphan = false then c.policy.enqueue id e.dropClient
      else c.policy

variable {c : Cache κ}

theorem policy_beforeEviction (c : Cache κ) (op : Operation κ) :
    (c.beforeEviction op).cache.policy = c.policyAfter op := by
  cases op with
  | store s k value size observer =>
    unfold beforeEviction policyAfter store
    dsimp only
    split
    · rw [Transition.policy_accept, Transition.policy_supersede, Transition.policy_reload]
      rfl
    · exact c.start.policy_reload s
  | get s k =>
    have hunqueue := c.start.policy_unqueue k
    unfold beforeEviction policyAfter
    -- a hit and a miss differ in what the policy is told, after the key has left its pools
    dsimp only
    rw [Transition.cached_unqueue_start]
    cases c.cached.get? k with
    | none =>
      rw [Transition.policy_reload]
      exact congrArg (·.onMiss k) hunqueue
    | some id =>
      rw [Transition.policy_reload]
      exact hunqueue
  | probe k => rfl
  | reuse k =>
    have hunqueue := c.start.policy_unqueue k
    show (c.reuse k).2.cache.policy = _
    unfold reuse
    dsimp only
    -- the map forgets the entry too, which does not concern the policy
    split
    · exact hunqueue
    · exact (Transition.policy_detach _ k).trans hunqueue
  | removeAll s p =>
    show ((c.start.removeMatching p).2.2.reload s).cache.policy = _
    rw [Transition.policy_reload, Transition.cache_removeMatching]
    rfl
  | clear s =>
    show ((c.start.removeMatching .always).2.2.reload s).cache.policy = _
    rw [Transition.policy_reload, Transition.cache_removeMatching]
    rfl
  | trim s pressure ratio =>
    unfold beforeEviction
    dsimp only
    rw [Transition.policy_reload, Transition.policy_discard]
    rfl
  | release s id =>
    show (((c.start.updateEntry id Entry.dropClient).settle id).reload s).cache.policy = _
    rw [Transition.policy_reload, Transition.policy_settle_release]
    rfl

/-- The policy after an operation: what the operation has made of it, and the eviction if there is one. -/
theorem policy_apply (c : Cache κ) (op : Operation κ) :
    (c.apply op).cache.policy
      = if op.evicts then (c.beforeEviction op).evicted.2 else c.policyAfter op := by
  rw [apply_eq]
  split
  · exact Transition.policy_evict _
  · exact c.policy_beforeEviction op

/-! ## Uses -/

/-- The entry that the operation hands a reference out to. -/
def handsOut (c : Cache κ) : Operation κ → Option EntryId
  | .store s k value size observer => (c.store s k value size observer).1
  | .get s k => (c.get s k).1
  | _ => none

/-- The entry that the operation, a probe, finds exclusive. -/
def probed (c : Cache κ) : Operation κ → Option EntryId
  | .probe k => (c.policy.remove k).1
  | _ => none

/-- How often an operation uses an entry. -/
def uses (c : Cache κ) (op : Operation κ) (id : EntryId) : Nat :=
  (if c.handsOut op = some id then 1 else 0) + (if c.probed op = some id then 1 else 0)

theorem uses_of_none {op : Operation κ} (hnone : c.handsOut op = none) (hprobed : c.probed op = none)
    (id : EntryId) : c.uses op id = 0 := by
  simp [uses, hnone, hprobed]

/-- A request is answered by what is cached under the key. -/
theorem get_fst (c : Cache κ) (s : Surroundings) (k : κ) : (c.get s k).1 = c.cached.get? k := by
  unfold get
  dsimp only
  rw [Transition.cached_unqueue_start]
  cases c.cached.get? k <;> rfl

theorem tableAfter_get_of_missed {c : Cache κ} {k : κ} (hget : c.cached.get? k = none) (s : Surroundings) :
    c.tableAfter (.get s k) = c.entries := by
  unfold tableAfter
  dsimp only
  rw [get_fst, hget]

/-- What answers a request gets a client. -/
theorem clients_tableAfter_get {c : Cache κ} (h : c.Owned) {k : κ} {id : EntryId}
    (hget : c.cached.get? k = some id) (s : Surroundings) (j : EntryId) :
    (c.tableAfter (.get s k)).clients j = c.entries.clients j + if id = j then 1 else 0 := by
  obtain ⟨size, hmem⟩ := (c.cached.get?_eq_some_iff k id).1 hget
  obtain ⟨e, he, _⟩ := h.entry_of_cached _ hmem
  unfold tableAfter
  dsimp only
  rw [get_fst, hget]
  exact EntryTable.clients_addClient he rfl j

theorem entries_get (c : Cache κ) (s : Surroundings) (k : κ) :
    (c.beforeEviction (.get s k)).cache.entries =
      match c.cached.get? k with
      | none => c.entries
      | some id => c.entries.update id fun e => e.addClient.recordAccess := by
  have hentries := c.start.entries_unqueue k
  unfold beforeEviction
  dsimp only
  rw [Transition.cached_unqueue_start]
  cases c.cached.get? k with
  | none =>
    rw [Transition.entries_reload]
    exact hentries
  | some id =>
    rw [Transition.entries_reload]
    exact congrArg (fun t : EntryTable κ => t.update id fun e => e.addClient.recordAccess) hentries

theorem accesses_reuse (c : Cache κ) (k : κ) (id : EntryId) :
    (c.reuse k).2.cache.entries.accesses id = c.entries.accesses id := by
  have hentries := c.start.entries_unqueue k
  unfold reuse
  dsimp only
  split
  · rw [hentries]
    rfl
  · rename_i j _
    show EntryTable.accesses (((c.start.unqueue k).2.detach k).2.cache.entries.update j Entry.markOrphan)
      id = _
    rw [Transition.entries_detach, hentries]
    exact EntryTable.accesses_update _ _ _ fun _ => rfl

/-- The adaptive policy counts a use of what a probe finds. -/
theorem accesses_probe (h : c.Owned) {a : Adaptive κ} (hpolicy : c.policy = .adaptive a) (k : κ)
    (id : EntryId) : (c.policy.probe c.entries k).2.accesses id
      = c.entries.accesses id + if (c.policy.remove k).1 = some id then 1 else 0 := by
  cases hfound : (c.policy.remove k).1 with
  | none =>
    rw [Policy.probe_of_absent hfound]
    simp
  | some j =>
    -- the entry found is in the table, so its use is counted there
    obtain ⟨size, hmem⟩ := c.policy.mem_items_of_remove k j hfound
    obtain ⟨e, he, _⟩ := h.entry_of_cached _ (h.cached_of_item hmem)
    have hentries : (c.policy.probe c.entries k).2 = c.entries.update j Entry.recordAccess := by
      rw [hpolicy] at hfound ⊢
      rw [Policy.probe_adaptive_of_found hfound he]
    rw [hentries, EntryTable.accesses_use he rfl]
    simp

theorem accesses_apply (c : Cache κ) (op : Operation κ) (id : EntryId) :
    (c.apply op).cache.entries.accesses id = (c.beforeEviction op).cache.entries.accesses id := by
  rw [apply_eq]
  split
  · exact Transition.accesses_evict _ id
  · rfl

/-- A value that is taken in starts with the uses that the policy remembers of its key. -/
theorem accesses_store {s : Surroundings} {k : κ} {value : ValueId} {size : Nat}
    {observer : Option String} {j : EntryId} (hstored : (c.store s k value size observer).1 = some j)
    (id : EntryId) : (c.beforeEviction (.store s k value size observer)).cache.entries.accesses id
      = if c.entries.next = id then c.policy.initialAccesses k + 1 else c.entries.accesses id := by
  -- what is stored was admitted
  have hadmits : (c.start.reload s).cache.admits k size = true := by
    unfold store at hstored
    dsimp only at hstored
    split at hstored
    · assumption
    · exact nomatch hstored
  let t := (c.start.reload s).supersede k
  let e : Entry κ :=
    { key := k, value := value, size := size, observer := observer,
      accesses := t.cache.policy.initialAccesses k }
  have hbefore : (c.beforeEviction (.store s k value size observer)).cache.entries
      = Register.update (t.cache.entries.add e) t.cache.entries.next
        fun e => e.addClient.recordAccess := by
    unfold beforeEviction
    dsimp only
    rw [if_pos hadmits]
    rfl
  -- taking an older entry of the key out does not touch what is remembered of it
  have hpolicy : t.cache.policy.initialAccesses k = c.policy.initialAccesses k := by
    rw [Transition.policy_supersede, Transition.policy_reload]
    show (c.policy.remove k).2.initialAccesses k = _
    cases c.policy <;> rfl
  obtain ⟨haccesses, hnext⟩ := (c.start.reload s).entries_supersede k id
  rw [Transition.entries_reload] at haccesses hnext
  have hnew : Register.get? (t.cache.entries.add e) t.cache.entries.next = some e := by
    rw [Register.get?_add, if_pos rfl]
  rw [hbefore, EntryTable.accesses_use hnew rfl, EntryTable.accesses_add,
    show t.cache.entries.next = c.entries.next from hnext,
    show t.cache.entries.accesses id = c.entries.accesses id from haccesses]
  -- the entry of the new number is the one just entered, and its first use is the reference handed out
  by_cases hid : c.entries.next = id
  · simp only [if_pos hid]
    rw [show e.accesses = _ from hpolicy]
  · simp only [if_neg hid, Nat.add_zero]

end Cache

namespace Asked

variable {x : Asked κ} {a : Adaptive κ} {id : EntryId}

/-- What is new gets the next number. -/
theorem Ready.eq_next_of_store (h : x.Ready) {s : Surroundings} {k : κ} {value : ValueId} {size : Nat}
    {observer : Option String} (hstored : (x.cache.store s k value size observer).1 = some id) :
    id = x.cache.entries.next := by
  obtain ⟨keepers, hkept, _⟩ := h.accepted
  exact Cache.eq_next_of_store h.owned hkept hstored

/-- The uses of an entry add up, and nothing else happens to their number. -/
theorem Ready.accesses_after (h : x.Ready) (hpolicy : x.cache.policy = .adaptive a)
    (hid : id < x.cache.entries.next) :
    x.after.entries.accesses id = x.cache.entries.accesses id + x.cache.uses x.op id := by
  obtain ⟨c, op⟩ := x
  rw [after, Cache.accesses_apply]
  cases op with
  | store s k value size observer =>
    cases hstored : (c.store s k value size observer).1 with
    | none =>
      -- a value that is turned down is not entered in the table
      have hbefore : (c.beforeEviction (.store s k value size observer)).cache.entries = c.entries := by
        unfold Cache.store at hstored
        unfold Cache.beforeEviction
        dsimp only at hstored ⊢
        split at hstored
        · exact nomatch hstored
        · rename_i hrejected
          rw [if_neg hrejected]
          exact c.start.entries_reload s
      have hserved : c.handsOut (.store s k value size observer) = none := hstored
      rw [hbefore, Cache.uses_of_none hserved rfl]
      rfl
    | some j =>
      -- the new number belongs to no entry from before
      have hj := h.eq_next_of_store hstored
      have hne : ¬ c.entries.next = id := Nat.ne_of_gt hid
      rw [Cache.accesses_store hstored, if_neg hne]
      simp [Cache.uses, Cache.handsOut, Cache.probed, hstored, hj, hne]
  | get s k =>
    have hserved : c.handsOut (.get s k) = c.cached.get? k := c.get_fst s k
    rw [Cache.entries_get]
    cases hget : c.cached.get? k with
    | none => simp [Cache.uses, hserved, hget, Cache.probed]
    | some j =>
      obtain ⟨size, hmem⟩ := (c.cached.get?_eq_some_iff k j).1 hget
      obtain ⟨e, he, _⟩ := h.owned.entry_of_cached _ hmem
      dsimp only
      rw [EntryTable.accesses_use he rfl]
      simp [Cache.uses, hserved, hget, Cache.probed]
  | probe k =>
    -- a probe hands nothing out
    have huses : c.uses (.probe k) id = if (c.policy.remove k).1 = some id then 1 else 0 :=
      Nat.zero_add _
    exact huses ▸ Cache.accesses_probe h.owned hpolicy k id
  | reuse k => exact (c.accesses_reuse k id).trans (by simp [Cache.uses, Cache.handsOut, Cache.probed])
  -- removals mark orphans, and trimming discards; neither uses anything
  | removeAll s p =>
    show ((c.start.removeMatching p).2.2.reload s).cache.entries.accesses id = _
    rw [Transition.entries_reload, Transition.cache_removeMatching, Cache.uses_of_none rfl rfl]
    exact EntryTable.accesses_foldl_markOrphan _ _ id
  | clear s =>
    show ((c.start.removeMatching .always).2.2.reload s).cache.entries.accesses id = _
    rw [Transition.entries_reload, Transition.cache_removeMatching, Cache.uses_of_none rfl rfl]
    exact EntryTable.accesses_foldl_markOrphan _ _ id
  | trim s pressure ratio =>
    unfold Cache.beforeEviction
    dsimp only
    rw [Transition.entries_reload, Transition.accesses_discard, Cache.uses_of_none rfl rfl]
    rfl
  | release s j =>
    show (((c.start.updateEntry j Entry.dropClient).settle j).reload s).cache.entries.accesses id = _
    rw [Transition.entries_reload, Transition.entries_settle, Cache.uses_of_none rfl rfl]
    exact EntryTable.accesses_update _ _ _ fun _ => rfl

/-- A new entry has been used once, on top of what the policy remembers of its key. -/
theorem Ready.accesses_new (h : x.Ready) {s : Surroundings} {k : κ} {value : ValueId} {size : Nat}
    {observer : Option String} (hop : x.op = .store s k value size observer)
    (hstored : (x.cache.store s k value size observer).1 = some id) :
    x.after.entries.accesses id = x.cache.policy.initialAccesses k + 1 := by
  rw [after, Cache.accesses_apply, hop, Cache.accesses_store hstored, if_pos (h.eq_next_of_store hstored).symm]

end Asked

end RefCache
