import RefCache.Proofs.Ownership.Transition

/-!
# Every operation keeps the ownership of entries

`Cache.tableAfter` says what an operation makes of the table of entries, up to marks: only a value
that is taken in, an entry that is handed out and a client that lets go change it. Most operations end
by evicting, and `Cache.beforeEviction` is what they do until then; `beforeEviction_orderly` puts the
steps of each operation together, and `apply_orderly` adds the eviction.
-/

namespace RefCache

universe u

variable {κ : Type u}

/-- The predicate of the operation, if it has one, looks at the key alone. -/
def Operation.KeyDetermined : Operation κ → Prop
  | .removeAll _ p => p.KeyDetermined
  | _ => True

/-- The surroundings of an operation that looks at them. -/
def Operation.surroundings? : Operation κ → Option Surroundings
  | .store s .. | .get s _ | .removeAll s _ | .clear s | .trim s .. | .release s _ => some s
  | .probe _ | .reuse _ => none

/-- The operation ends by evicting what exceeds the budget of the policy. -/
def Operation.evicts : Operation κ → Bool
  | .probe _ | .reuse _ | .clear _ => false
  | _ => true

namespace Cache

variable [Key κ]

/-- Somebody can ask for the operation: an entry that a client lets go of has a client, and is kept
by somebody else for the time being. -/
def Accepts (c : Cache κ) (keepers : List EntryId) : Operation κ → Prop
  | .release _ id => 0 < c.entries.clients id ∧ id ∈ keepers
  | _ => True

/-- The table of entries after an operation, up to marks. -/
def tableAfter (c : Cache κ) : Operation κ → EntryTable κ
  | .store s k value size observer =>
    match (c.store s k value size observer).1 with
    | none => c.entries
    | some _ => c.entries.enroll { key := k, value := value, size := size, observer := observer }
  | .get s k =>
    match (c.get s k).1 with
    | none => c.entries
    | some id => c.entries.update id Entry.addClient
  | .release _ id => c.entries.update id Entry.dropClient
  | _ => c.entries

/-! ## The last step -/

/-- What an operation does until it evicts; all of it, if it does not end in that way. -/
def beforeEviction (c : Cache κ) : Operation κ → Transition κ
  | .store s k value size observer =>
    let t := c.start.reload s
    if t.cache.admits k size then ((t.supersede k).accept k value size observer).2
    else t.reject size
  | .get s k =>
    let t := (c.start.unqueue k).2
    match t.cache.cached.get? k with
    | some id => (t.hit id).reload s
    | none => (t.miss k).reload s
  | .removeAll s p => (c.start.removeMatching p).2.2.reload s
  | .trim s pressure ratio =>
    let target := c.trimTarget ratio
    let (evicted, policy) := c.policy.trim c.entries.accesses target
    let t := (c.start.log (.trimming pressure ratio target)).modify ({ · with policy := policy })
    ((t.called (.trim target (c.entries.keys evicted))).discard evicted).reload s
  | .release s id => ((c.start.updateEntry id Entry.dropClient).settle id).reload s
  | op => c.apply op

/-- An operation is what it does before the eviction, and the eviction if there is one. -/
theorem apply_eq (c : Cache κ) (op : Operation κ) :
    c.apply op = if op.evicts then (c.beforeEviction op).evict else c.beforeEviction op := by
  cases op with
  | store s k value size observer =>
    show (c.store s k value size observer).2 = (c.beforeEviction _).evict
    unfold store beforeEviction
    dsimp only
    split <;> rfl
  | get s k =>
    show (c.get s k).2 = (c.beforeEviction _).evict
    unfold get beforeEviction
    dsimp only
    cases (c.start.unqueue k).2.cache.cached.get? k <;> rfl
  | _ => rfl

variable {c : Cache κ} {base : List EntryId}

theorem start_orderly (h : c.Owned) (hkept : c.KeepsOrphans base) :
    c.start.Orderly c.entries base [] where
  owned := h
  kept := by
    intro id e he horphan hclients
    exact List.mem_append_left _ (hkept id e he horphan hclients)
  marks := .refl _

/-! ## What is handed out -/

/-- A value that is taken in gets the next number. -/
theorem eq_next_of_store (h : c.Owned) (hkept : c.KeepsOrphans base) {s : Surroundings} {k : κ}
    {value : ValueId} {size : Nat} {observer : Option String} {id : EntryId}
    (hfound : (c.store s k value size observer).1 = some id) : id = c.entries.next := by
  have hsupersede := ((start_orderly h hkept).reload s).supersede k
  unfold store at hfound
  dsimp only at hfound
  split at hfound
  · cases hfound
    exact hsupersede.marks.next_eq
  · exact nomatch hfound

/-- A value is taken in if it is admitted under the limits that are in effect then. -/
theorem isSome_store (c : Cache κ) (s : Surroundings) (k : κ) (value : ValueId) (size : Nat)
    (observer : Option String) :
    (c.store s k value size observer).1.isSome = (c.start.reload s).cache.admits k size := by
  unfold store
  dsimp only
  cases (c.start.reload s).cache.admits k size <;> rfl

/-- What answers a request was cached under the key. -/
theorem mem_cached_of_get {s : Surroundings} {k : κ} {id : EntryId}
    (hfound : (c.get s k).1 = some id) : ∃ size, (k, ⟨id, size⟩) ∈ c.cached.toList := by
  unfold get at hfound
  dsimp only at hfound
  split at hfound
  · rename_i id' hget
    cases hfound
    rw [Transition.cache_unqueue] at hget
    exact (c.cached.get?_eq_some_iff k id).1 hget
  · exact nomatch hfound

/-- What is cached under a key answers a request for it. -/
theorem get_of_cached {k : κ} {id : EntryId} (hget : c.cached.get? k = some id) (s : Surroundings) :
    (c.get s k).1 = some id := by
  have hunqueue : (c.start.unqueue k).2.cache.cached.get? k = some id := by
    rw [Transition.cache_unqueue]
    exact hget
  unfold get
  dsimp only
  rw [hunqueue]

/-! ## One lemma for each operation -/

theorem store_orderly (h : c.Owned) (hkept : c.KeepsOrphans base) (s : Surroundings) (k : κ)
    (value : ValueId) (size : Nat) (observer : Option String) :
    (c.beforeEviction (.store s k value size observer)).Orderly
      (c.tableAfter (.store s k value size observer)) base [] := by
  have hreload := (start_orderly h hkept).reload s
  rw [tableAfter, beforeEviction]
  unfold store
  dsimp only
  split
  · exact (hreload.supersede k).accept (Transition.not_cached_supersede _ k) value size observer
  · exact hreload.reject size

theorem get_orderly (h : c.Owned) (hkept : c.KeepsOrphans base) (s : Surroundings) (k : κ) :
    (c.beforeEviction (.get s k)).Orderly (c.tableAfter (.get s k)) base [] := by
  obtain ⟨loose, hunqueue, hnokey, hloose⟩ := (start_orderly h hkept).unqueue k
  rw [tableAfter, beforeEviction]
  unfold get
  dsimp only
  generalize (c.start.unqueue k).2 = t at *
  cases hget : t.cache.cached.get? k with
  | none =>
    -- what the policy gave away would still be cached under the key
    have hnil : loose = [] := by
      rcases hloose with ⟨_, rfl⟩ | ⟨id, size, _, rfl⟩
      · rfl
      · have hmem := (hunqueue.owned.mem_idle (List.mem_append_left _ (List.mem_singleton_self _))).1
        rw [SizedMap.get?_eq_none_iff, SizedMap.keys_eq] at hget
        exact absurd (List.mem_map_of_mem hmem) hget
    rw [hnil] at hunqueue
    exact (hunqueue.miss k).reload s
  | some id =>
    have hkeys : ∀ x ∈ loose, x.1 = k := by
      rcases hloose with ⟨_, rfl⟩ | ⟨_, _, _, rfl⟩
      · exact fun _ hx => nomatch hx
      · intro x hx
        rw [List.mem_singleton.1 hx]
    exact (hunqueue.hit hget hnokey hkeys).reload s

theorem probe_orderly (h : c.Owned) (hkept : c.KeepsOrphans base) (k : κ) :
    (c.probe k).Orderly c.entries base [] :=
  ((start_orderly h hkept).probe k).called .probe

theorem reuse_orderly (h : c.Owned) (hkept : c.KeepsOrphans base) (k : κ) :
    (c.reuse k).2.Orderly c.entries base [] := by
  obtain ⟨loose, hunqueue, hnokey, hloose⟩ := (start_orderly h hkept).unqueue k
  unfold reuse
  dsimp only
  rcases hloose with ⟨hfound, rfl⟩ | ⟨id, size, hfound, rfl⟩
  · rw [hfound]
    exact hunqueue
  · rw [hfound]
    have hmem := (hunqueue.owned.mem_idle (List.mem_append_left _ (List.mem_singleton_self _))).1
    have hexpel := hunqueue.expelOne hmem hnokey
    rw [List.filter_cons_of_neg (by simp), List.filter_nil] at hexpel
    exact hexpel

theorem removeAll_orderly (h : c.Owned) (hkept : c.KeepsOrphans base) (s : Surroundings)
    {p : Predicate κ} (hp : p.KeyDetermined) :
    (c.beforeEviction (.removeAll s p)).Orderly c.entries base [] :=
  ((start_orderly h hkept).removeMatching hp).reload s

theorem clear_orderly (h : c.Owned) (hkept : c.KeepsOrphans base) (s : Surroundings) :
    (c.clear s).Orderly c.entries base [] :=
  ((start_orderly h hkept).removeMatching Predicate.keyDetermined_always).reload s

theorem trim_orderly (h : c.Owned) (hkept : c.KeepsOrphans base) (s : Surroundings)
    (pressure : Pressure) (ratio : Float) :
    (c.beforeEviction (.trim s pressure ratio)).Orderly c.entries base [] := by
  have hlog := (start_orderly h hkept).log (.trimming pressure ratio (c.trimTarget ratio))
  have hyield := hlog.yield (c.policy.trim_yields c.entries.accesses (c.trimTarget ratio))
    (.trim (c.trimTarget ratio) (c.entries.keys
      (c.policy.trim c.entries.accesses (c.trimTarget ratio)).1))
  exact hyield.reload s

theorem release_orderly (h : c.Owned) (hkept : c.KeepsOrphans base) (s : Surroundings)
    {id : EntryId} (hclients : 0 < c.entries.clients id) (hbase : id ∈ base) :
    (c.beforeEviction (.release s id)).Orderly (c.entries.update id Entry.dropClient) base [] := by
  cases he : c.entries.get? id with
  | none =>
    rw [EntryTable.clients, Register.readout_of_none _ _ he] at hclients
    exact absurd hclients (Nat.lt_irrefl 0)
  | some e =>
    rw [EntryTable.clients_of_get? he] at hclients
    exact ((start_orderly h hkept).release he hclients hbase).reload s

/-! ## All operations -/

theorem beforeEviction_orderly (h : c.Owned) (hkept : c.KeepsOrphans base) {op : Operation κ}
    (hop : op.KeyDetermined) (haccepts : c.Accepts base op) :
    (c.beforeEviction op).Orderly (c.tableAfter op) base [] := by
  cases op with
  | store s k value size observer => exact store_orderly h hkept s k value size observer
  | get s k => exact get_orderly h hkept s k
  | probe k => exact probe_orderly h hkept k
  | reuse k => exact reuse_orderly h hkept k
  | removeAll s p => exact removeAll_orderly h hkept s hop
  | clear s => exact clear_orderly h hkept s
  | trim s pressure ratio => exact trim_orderly h hkept s pressure ratio
  | release s id => exact release_orderly h hkept s haccepts.1 haccepts.2

/-- Every operation keeps the ownership of entries. -/
theorem apply_orderly (h : c.Owned) (hkept : c.KeepsOrphans base) {op : Operation κ}
    (hop : op.KeyDetermined) (haccepts : c.Accepts base op) :
    (c.apply op).Orderly (c.tableAfter op) base [] := by
  have hbefore := beforeEviction_orderly h hkept hop haccepts
  rw [apply_eq]
  split
  · exact hbefore.evict
  · exact hbefore

end Cache

end RefCache
