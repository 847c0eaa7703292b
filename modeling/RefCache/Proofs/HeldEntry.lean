import RefCache.Proofs.Ownership.Pools
import RefCache.Proofs.Ownership.Staying
import RefCache.Proofs.Session.Histories

/-!
# A held entry is never lost

Whatever is evicted, trimmed or asked for, and whatever the limits are: as long as a client has a
reference to an entry that is cached, and the key is spared (`Cache.SparesAll`), the entry stays cached
and answers every request for the key.
-/

namespace RefCache

universe u

variable {κ : Type u} [Key κ]

/-- An operation that spares a key does so in a cache that has forgotten orphans. -/
theorem Cache.Forgets.spares {c c' : Cache κ} {base : List EntryId} (h : c.Forgets c')
    (hc' : c'.Owned) (hkept : c'.KeepsOrphans base) {k : κ} {op : Operation κ}
    (hspares : c.Spares k op) : c'.Spares k op := by
  cases op with
  | store s k' value size observer =>
    intro heq
    rw [h.store_fst hc' hkept]
    exact hspares heq
  | _ => exact hspares

namespace Session

/-- The entry is cached under the key, and no request for the key finds another. -/
structure Holds (m : Session κ) (k : κ) (id : EntryId) (v : ValueId) : Prop where
  cached : m.cache.cached.get? k = some id
  entry : ∃ e, m.cache.entries.get? id = some e ∧ e.key = k ∧ e.value = v ∧ e.orphan = false
  not_pooled : id ∉ m.cache.policy.ids
  unreleased : ∃ value, m.values.get? v = some value ∧ m.releases v = 0
  answered : ∀ w, (m.cache.get w k).1 = some id

/-- What a session keeps on its way to another one: an entry that is cached and that a client refers to
is cached under its key and answers every request for it, if the client is still there and the key was
spared. -/
def HeldStays (m : Session κ) (log : List (Incident κ)) (m' : Session κ) : Prop :=
  ∀ c client e, m.clients.get? c = some client → m.cache.entries.get? client.entry = some e →
    e.orphan = false → m.cache.SparesAll e.key (askedOf log) →
      (∃ client, m'.clients.get? c = some client) → m'.Holds e.key client.entry e.value

/-- What clients refer to stays from any moment to any later one on the way from one session to
another. -/
structure HeldAlong (s : Session κ) (log : List (Incident κ)) (s' : Session κ) : Prop where
  through : s.HeldStays log s'
  up_to : ∀ before i after, log = before ++ i :: after → s.HeldStays before i.state
  on_from : ∀ before i after, log = before ++ i :: after → i.state.HeldStays (i :: after) s'
  between : ∀ before i mid j after, log = before ++ i :: (mid ++ j :: after) →
    i.state.HeldStays (i :: mid) j.state

variable {s s' m : Session κ} {log before after : List (Incident κ)} {i : Incident κ} {c : ClientId}
  {client : Client} {x : κ × Sized EntryId} {held : List ClientId} {grip : List ValueId}

/-! ## Clients and pools -/

/-- A client of the entry counts for it. -/
theorem clientsOf_pos {id : EntryId} (hclient : m.clients.get? c = some client)
    (hid : client.entry = id) : 0 < m.clientsOf id := by
  refine Nat.pos_of_ne_zero fun hzero => ?_
  rw [clientsOf, Register.count_eq_zero_iff] at hzero
  simpa [hid] using hzero c client hclient

theorem Balanced.clients_pos {table : EntryTable κ} {id : EntryId} (h : m.Balanced table held grip)
    (hclient : m.clients.get? c = some client) (hid : client.entry = id) : 0 < table.clients id := by
  rw [h.clients_eq]
  exact clientsOf_pos hclient hid

/-- What is exclusive has no clients. -/
theorem not_pooled_of_clients {c : Cache κ} {id : EntryId} (h : c.Owned)
    (hclients : 0 < c.entries.clients id) : id ∉ c.policy.ids := by
  intro hmem
  obtain ⟨e, he, _, hzero⟩ := (h.mem_ids_iff id).1 hmem
  rw [EntryTable.clients_of_get? he] at hclients
  omega

theorem Consistent.not_pooled {base : List EntryId} (h : m.Consistent base held grip)
    (hclient : m.clients.get? c = some client) : client.entry ∉ m.cache.policy.ids :=
  not_pooled_of_clients h.owned (h.balanced.clients_pos hclient rfl)

/-! ## Step by step -/

/-- As long as its client is there and the key is spared, the row is cached. It is in no pool after an
operation, and not before one either if it has not been in one from the beginning. -/
def Stays (s : Session κ) (c : ClientId) (x : κ × Sized EntryId) (l : List (Incident κ))
    (m : Session κ) : Prop :=
  s.cache.SparesAll x.1 (askedOf l) → (∃ client, m.clients.get? c = some client) → ¬ m.Dissolved →
    x ∈ m.cache.cached.toList ∧
      (askedOf l ≠ [] ∨ x.2.value ∉ s.cache.policy.ids → x.2.value ∉ m.cache.policy.ids)

theorem Stays.pass {l l' : List (Incident κ)} {a b : Session κ} (h : s.Stays c x l a)
    {heard : List Notice} (hpasses : a.Passes heard b) (hasked : askedOf l' = [])
    (hc : c < a.clients.next) : s.Stays c x (l ++ l') b := by
  rintro hspares ⟨client', hclient'⟩ halive
  obtain ⟨client, hclient, _⟩ := hpasses.clients.earlier c client' hc hclient'
  have hforgets := hpasses.forgets.resolve_right halive
  rw [askedOf_append, hasked, List.append_nil] at hspares ⊢
  rw [hforgets.cached_eq, hforgets.policy_eq]
  exact h hspares ⟨client, hclient⟩ fun hdissolved => halive (hpasses.outlives.dissolved hdissolved)

theorem Stays.operate {l : List (Incident κ)} {a : Session κ} (h : s.Stays c x l a)
    (hfollows : s.Follows l a) {op : Operation κ} (hprepared : a.Prepared op held grip)
    (hallowed : a.Allows op)
    (hlasting : ∀ client, a.clients.get? c = some client → client.entry = x.2.value) :
    s.Stays c x (l ++ [⟨a, .asked op⟩]) (a.adopt op (a.cache.apply op)) := by
  rintro hspares ⟨client, hclient⟩ _
  have halive := hprepared.not_dissolved hallowed
  have hreplay := hfollows.replay.resolve_left halive
  rw [askedOf_append, askedOf_asked, askedOf_nil, Cache.sparesAll_append] at hspares
  -- the operations that the entry has seen so far led to this cache, and the new one spares it as well
  have hnow := hreplay.spares hprepared.owned hprepared.kept hspares.2.1
  obtain ⟨hx, _⟩ := h hspares.1 ⟨client, hclient⟩ halive
  have hclients : 0 < (a.cache.tableAfter op).clients x.2.value :=
    hprepared.balanced.clients_pos hclient (hlasting client hclient)
  refine ⟨Cache.stays_apply hprepared.owned hprepared.kept hprepared.determined hprepared.accepts
    hnow hx hclients, fun _ => ?_⟩
  rw [← hprepared.orderly.marks.clients_eq] at hclients
  exact not_pooled_of_clients hprepared.orderly.owned hclients

/-- A row that a client refers to stays where it is all the way. -/
theorem Proceeds.stays (h : s.Proceeds log s') (hclient : s.clients.get? c = some client)
    (hid : client.entry = x.2.value) (hx : x ∈ s.cache.cached.toList) : s.Stays c x log s' := by
  have hc : c < s.clients.next := Register.lt_next_of_get? _ hclient
  refine h.invariant (fun l l' a b heard hpast hpasses hasked _ _ hstays => ?_)
    (fun l a op held grip hpast hprepared hallowed hstays => ?_) fun _ _ _ => ⟨hx, ?_⟩
  · exact hstays.pass hpasses hasked (Nat.lt_of_lt_of_le hc hpast.outlives.clients.next_le)
  · -- the client has always been one of the same entry
    refine hstays.operate hpast.follows hprepared hallowed fun client' hclient' => ?_
    obtain ⟨client₀, hclient₀, heq⟩ := hpast.outlives.clients.earlier c client' hc hclient'
    rw [heq, Option.some.inj (hclient₀.symm.trans hclient), hid]
  · simp

/-! ## From one moment to another -/

/-- What a row that stays means to those who ask for its key. -/
theorem Follows.holds {id : EntryId} {e : Entry κ} (h : s.Follows log m) (howned : s.cache.Owned)
    (he : s.cache.entries.get? id = some e) (hx : (e.key, ⟨id, e.size⟩) ∈ m.cache.cached.toList)
    (hpooled : id ∉ m.cache.policy.ids)
    (hvalues : ∀ e', m.cache.entries.get? id = some e' →
      ∃ value, m.values.get? e'.value = some value ∧ m.releases e'.value = 0) :
    m.Holds e.key id e.value := by
  have hget : m.cache.cached.get? e.key = some id :=
    (m.cache.cached.get?_eq_some_iff _ _).2 ⟨_, hx⟩
  obtain ⟨e', he', hkey, horphan, _⟩ := (h.trace.owned howned).mem_cached_of_get? hget
  -- the entry still carries the value that it was made for
  obtain ⟨e₀, he₀, hbecomes⟩ :=
    (h.trace.evolves howned).earlier id e' (Register.lt_next_of_get? _ he) he'
  obtain rfl : e₀ = e := Option.some.inj (he₀.symm.trans he)
  exact
    { cached := hget
      entry := ⟨e', he', hkey, hbecomes.value_eq, horphan⟩
      not_pooled := hpooled
      unreleased := hbecomes.value_eq ▸ hvalues e' he'
      answered := fun w => Cache.get_of_cached hget w }

/-- Clients and pools agree, or an operation is about to see to it. -/
structure Steady (m : Session κ) (log : List (Incident κ)) : Prop where
  owned : m.cache.Owned
  not_pooled : askedOf log ≠ [] ∨
    ∀ c client, m.clients.get? c = some client → client.entry ∉ m.cache.policy.ids

/-- The cache is there if anybody refers to an entry, and so are the values of all entries. -/
structure Intact (m : Session κ) : Prop where
  not_dissolved : ∀ c client, m.clients.get? c = some client → ¬ m.Dissolved
  unreleased : ∀ id e, m.cache.entries.get? id = some e →
    ∃ value, m.values.get? e.value = some value ∧ m.releases e.value = 0

theorem Proceeds.heldStays (h : s.Proceeds log s') (hsteady : s.Steady log) (hintact : s'.Intact) :
    s.HeldStays log s' := by
  rintro c client e hclient he horphan hspares ⟨client', hclient'⟩
  -- what is no orphan is cached to begin with
  have hcached := hsteady.owned.cached_of_entry client.entry e he horphan
  have hstays := h.stays (x := (e.key, ⟨client.entry, e.size⟩)) hclient rfl hcached
  obtain ⟨hx, hpooled⟩ := hstays hspares ⟨client', hclient'⟩ (hintact.not_dissolved c client' hclient')
  have hnot := hpooled (hsteady.not_pooled.imp_right fun hnot => hnot c client hclient)
  exact h.follows.holds hsteady.owned he hx hnot (hintact.unreleased client.entry)

/-- Where something happens, clients and pools agree, or it is an operation that sees to it. -/
theorem Proceeds.steady (h : s.Proceeds log s') (hi : i ∈ log) : i.state.Steady (i :: after) := by
  refine ⟨h.owned hi, ?_⟩
  rcases h.prepared_or_attends hi with ⟨op, _, _, hwhat, _⟩ | ⟨_, _, _, _, hconsistent⟩
  · obtain ⟨m, what⟩ := i
    obtain rfl : what = .asked op := hwhat
    exact .inl (by simp)
  · exact .inr fun _ _ hclient => hconsistent.not_pooled hclient

theorem Proceeds.intact (h : s.Proceeds log s') (hkept : s.KeepsInFlight) (hi : i ∈ log) :
    i.state.Intact where
  not_dissolved := fun _ _ _ => h.not_dissolved hkept hi
  unreleased := fun _ _ he => h.unreleased hi he

theorem AtRest.intact (h : s.AtRest) : s.Intact where
  not_dissolved := by
    intro c client hclient
    refine h.not_dissolved (.inr (Bool.eq_false_iff.2 fun hempty => ?_))
    rw [(Register.isEmpty_iff _).1 hempty c] at hclient
    exact nomatch hclient
  unreleased := fun _ _ he => h.consistent.balanced.unreleased he

theorem AtRest.steady (h : s.AtRest) : s.Steady log where
  owned := h.consistent.owned
  not_pooled := .inr fun _ _ hclient => h.consistent.not_pooled hclient

theorem Proceeds.heldAlong (h : s.Proceeds log s') (hrest : s.AtRest) (hend : s'.AtRest) :
    s.HeldAlong log s' where
  through := h.heldStays hrest.steady hend.intact
  up_to := by
    rintro before i after rfl
    exact h.split.1.heldStays hrest.steady (h.intact hrest.keepsInFlight (by simp))
  on_from := by
    rintro before i after rfl
    exact h.split.2.heldStays (h.steady (by simp)) hend.intact
  between := by
    rintro before i mid j after rfl
    have hrest' := h.split.2
    rw [← List.cons_append] at hrest'
    exact hrest'.split.1.heldStays (h.steady (by simp)) (h.intact hrest.keepsInFlight (by simp))

/-- What the cache was asked since an earlier moment of the same session, in order. -/
def operationsSince (s' s : Session κ) : List (Operation κ) :=
  (s'.operations.take (s'.operations.length - s.operations.length)).reverse

/-- In a session that can be reached, and from any moment to any later one in what comes after, callbacks
included: an entry that a client refers to stays cached, in no pool, and answers every request for its
key, if the client stays and the key is spared. -/
theorem Reachable.held_stays (h : s.Reachable) {steps : List (Step κ)}
    (hsteps : ∀ step ∈ steps, step.KeyDetermined) :
    ∃ log, s.Unfolds [] log (s.runAll steps) ∧
      askedOf log = (s.runAll steps).operationsSince s ∧ s.HeldAlong log (s.runAll steps) := by
  have hrest := h.atRest
  have hend := (hrest.trace_runAll steps hsteps).1
  obtain ⟨log, hlog⟩ := hrest.unfolds_runAll steps hsteps
  refine ⟨log, hlog, ?_, hlog.proceeds.heldAlong hrest hend⟩
  simp [operationsSince, hlog.proceeds.follows.operations_eq]

/-- A value is cached, and the reference to it is held. -/
def oneHeld : List (Step Nat) :=
  [.request (.put 1 { tag := "a", size := 10 } none (some "r"))]

/-- Another value comes in and is let go, all limits become nothing, and requests are made until they
are in effect. -/
def hardTimes : List (Step Nat) :=
  [.request (.put 2 { tag := "b", size := 10 } none none),
    .offer { maxSize := 0, maxEntries := 0, maxQueueSize := 0, maxQueueEntries := 0, maxEntrySize := 0 },
    .advance (.ofSeconds 1000), .request (.get 2 none), .request (.put 1 { tag := "c", size := 1 } none none),
    .request (.reuse 1 none), .request (.removeAll (.ofKey fun k => k = 2))]

theorem held_stays_hardTimes :
    (((start {}).runAll oneHeld).runAll hardTimes).Holds 1 0 0 ∧
      (((start {}).runAll oneHeld).runAll hardTimes).cache.limits.maxEntries = 0 ∧
      (((start {}).runAll oneHeld).runAll hardTimes).cache.count = 1 := by
  have hreachable : ((start {}).runAll oneHeld).Reachable := by
    refine ⟨{}, oneHeld, (fun _ hr => nomatch hr), fun step hstep => ?_, rfl⟩
    rw [List.mem_singleton.1 hstep]
    trivial
  have hsteps : ∀ step ∈ hardTimes, step.KeyDetermined := by
    intro step hstep
    simp only [hardTimes, List.mem_cons, List.not_mem_nil, or_false] at hstep
    rcases hstep with rfl | rfl | rfl | rfl | rfl | rfl | rfl
    · trivial
    · trivial
    · trivial
    · trivial
    · trivial
    · trivial
    · exact Predicate.keyDetermined_ofKey _
  -- the entry that the reference holds, before the hard times
  have hclient : ((start {}).runAll oneHeld).clients.get? 0 = some { entry := 0 } := by
    decide +kernel
  have hentry : ((start {}).runAll oneHeld).cache.entries.get? 0
      = some { key := 1, value := 0, size := 10, clients := 1, accesses := 1 } := by
    decide +kernel
  obtain ⟨log, _, hasked, hheld⟩ := hreachable.held_stays hsteps
  refine ⟨hheld.through 0 _ _ hclient hentry rfl ?_ ⟨{ entry := 0 }, by decide +kernel⟩,
    by decide +kernel, by decide +kernel⟩
  rw [hasked]
  decide +kernel

end Session

end RefCache
