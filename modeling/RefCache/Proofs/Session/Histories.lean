import RefCache.Proofs.Session.Course

/-!
# Sessions and their histories

`s.Follows l m` says how a state `m` on the way of the session `s` follows from the incidents `l` that
led there: its cache is what the operations among them make of the cache of `s`, one after the other,
but for orphans that have been forgotten. Everything that a callback finds has therefore been settled
by the operations asked for before it, and by nothing else.

* `Follows.pass`, `Follows.operate`: one step more, of either kind
* `Proceeds.invariant`: what such steps preserve holds wherever the session comes to, and
  `Proceeds.follows` for `Follows` alone
* `Proceeds.outlives`, `Proceeds.evolves_since`: what has become of entries, clients and the cache
* `Proceeds.owned`, `Proceeds.not_dissolved`, `Proceeds.unreleased`: how things stand wherever something
  happens on the way
-/

namespace RefCache

universe u

variable {κ : Type u} [Key κ]

namespace Session

/-- What has become of a session later: entries are what they were, or gone, no client has come back,
and a cache that was torn down has not come back either. -/
structure Outlives (m m' : Session κ) : Prop where
  evolves : m.cache.entries.Evolves m'.cache.entries
  clients : Lasting m.clients m'.clients
  dissolved : m.Dissolved → m'.Dissolved

/-- The state `m` follows from the session `s` by way of the incidents `l`. -/
structure Follows (s : Session κ) (l : List (Incident κ)) (m : Session κ) : Prop where
  operations_eq : m.operations = (askedOf l).reverse ++ s.operations
  told_eq : m.told = s.told ++ announcedOf l
  reported_eq : s.cache.reportsAll (askedOf l) = reportedOf l
  trace : s.cache.Trace (askedOf l) m.cache
  replay : m.Dissolved ∨ (s.cache.applyAll (askedOf l)).Forgets m.cache
  toggles : ∀ id, ∃ b, Toggles (decide (id ∈ s.cache.policy.ids)) (flagsOf id (reportedOf l)) b ∧
    (m.Dissolved ∨ b = decide (id ∈ m.cache.policy.ids))

variable {s m m' m'' s' : Session κ} {l log before after : List (Incident κ)} {i : Incident κ}

theorem Outlives.refl (m : Session κ) : m.Outlives m :=
  ⟨.refl _, .refl _, id⟩

theorem Outlives.trans (h : m.Outlives m') (h' : m'.Outlives m'') : m.Outlives m'' :=
  ⟨h.evolves.trans h'.evolves, h.clients.trans h'.clients, h'.dissolved ∘ h.dissolved⟩

theorem Passes.outlives {heard : List Notice} (h : m.Passes heard m') : m.Outlives m' where
  evolves := h.trace.evolves_of_nil
  clients := h.clients
  dissolved := fun hdissolved => h.forgets.elim (hdissolved.of_forgets · h.present) id

/-- The observer of an entry is the same as long as the entry is there. -/
theorem Outlives.observer_eq (h : m.Outlives m') {id : EntryId} {e e' : Entry κ}
    (he : m.cache.entries.get? id = some e) (he' : m'.cache.entries.get? id = some e') :
    e'.observer = e.observer := by
  obtain ⟨e₀, he₀, hbecomes⟩ := h.evolves.earlier id e' (Register.lt_next_of_get? _ he) he'
  rw [hbecomes.observer_eq, Option.some.inj (he₀.symm.trans he)]

/-- So whoever is told about it is the same. -/
theorem Outlives.announced_eq (h : m.Outlives m') {n : Notice}
    (hthere : ∃ e, m.cache.entries.get? n.entry = some e)
    (hstill : ∃ e, m'.cache.entries.get? n.entry = some e) : m'.announced n = m.announced n := by
  obtain ⟨e, he⟩ := hthere
  obtain ⟨e', he'⟩ := hstill
  simp [announced, he, he', h.observer_eq he he']

theorem Follows.start (s : Session κ) : s.Follows [] s where
  operations_eq := rfl
  told_eq := by simp
  reported_eq := rfl
  trace := .start
  replay := .inr (.refl _)
  toggles := fun _ => ⟨_, rfl, .inr rfl⟩

/-- Where an operation is asked for, the cache has not been torn down. -/
theorem Prepared.not_dissolved {op : Operation κ} {held : List ClientId} {grip : List ValueId}
    (h : s.Prepared op held grip) (hallowed : s.Allows op) : ¬ s.Dissolved := by
  rintro ⟨habsent, hnone⟩
  cases op with
  | release w id =>
    -- a client lets go of an entry that is there
    have hclients : 0 < s.cache.entries.clients id := h.accepts.1
    rw [EntryTable.clients, Register.readout_of_none _ _ (hnone id)] at hclients
    omega
  | _ => simp [Allows, habsent] at hallowed

/-- A cache that has not forgotten what this one has comes to the same. -/
theorem Prepared.replayed {op : Operation κ} {held : List ClientId} {grip : List ValueId}
    (h : s.Prepared op held grip) {c : Cache κ} (hreplay : c.Forgets s.cache) :
    (c.apply op).Forgets (s.cache.apply op) :=
  hreplay.apply h.owned h.kept h.determined h.accepts

/-- An operation takes no entry out of the table. -/
theorem Prepared.exists_later {op : Operation κ} {held : List ClientId} {grip : List ValueId}
    (h : s.Prepared op held grip) {id : EntryId} {e : Entry κ}
    (he : s.cache.entries.get? id = some e) :
    ∃ e', (s.cache.apply op).cache.entries.get? id = some e' := by
  obtain ⟨e', he'⟩ := s.cache.exists_tableAfter op he
  obtain ⟨e'', he'', _⟩ := h.orderly.marks.later id e' he'
  exact ⟨e'', he''⟩

/-- What happens between operations leaves the operations as they were. -/
theorem Follows.pass (h : s.Follows l m) {heard : List Notice} (hpasses : m.Passes heard m')
    {l' : List (Incident κ)} (hasked : askedOf l' = []) (hreported : reportedOf l' = [])
    (hannounced : announcedOf l' = heard) : s.Follows (l ++ l') m' where
  operations_eq := by simp [hpasses.operations_eq, h.operations_eq, hasked]
  told_eq := by simp [hpasses.told_eq, h.told_eq, hannounced]
  reported_eq := by simp [hasked, hreported, h.reported_eq]
  trace := by simpa [hasked] using h.trace.trans hpasses.trace
  replay := by
    simp only [askedOf_append, hasked, List.append_nil]
    -- replaying leaves the same cache but for what is forgotten, or the cache is torn down by now
    rcases hpasses.forgets with hforgets | hdissolved
    · exact h.replay.imp hpasses.outlives.dissolved (·.trans hforgets)
    · exact .inl hdissolved
  toggles := by
    intro id
    -- nothing is reported in between, so the last flag stays what it was
    obtain ⟨b, htoggles, hb⟩ := h.toggles id
    refine ⟨b, by simpa [hreported] using htoggles, ?_⟩
    rcases hpasses.forgets with hforgets | hdissolved
    · refine hb.imp hpasses.outlives.dissolved fun hb => ?_
      rw [hb, hforgets.policy_eq]
    · exact .inl hdissolved

/-- One more operation. -/
theorem Follows.operate (h : s.Follows l m) {op : Operation κ} {held : List ClientId}
    {grip : List ValueId} (hprepared : m.Prepared op held grip) (hallowed : m.Allows op) :
    s.Follows (l ++ [⟨m, .asked op⟩]) (m.adopt op (m.cache.apply op)) := by
  -- a cache that is asked for something has not been torn down, so it is what replaying gives
  have hreplay := h.replay.resolve_left (hprepared.not_dissolved hallowed)
  have happly := hprepared.replayed hreplay
  constructor
  · simp [Session.adopt, h.operations_eq]
  · rw [show (m.adopt op (m.cache.apply op)).told = m.told from rfl, h.told_eq]
    simp
  · -- the replayed cache reports what this one does
    rw [askedOf_append, askedOf_asked, askedOf_nil, Cache.reportsAll_append, h.reported_eq,
      ← happly.notices_eq]
    simp
  · rw [askedOf_append, askedOf_asked, askedOf_nil]
    exact h.trace.perform hprepared.determined hprepared.kept hprepared.accepts
  · rw [askedOf_append, askedOf_asked, askedOf_nil, Cache.applyAll_append]
    exact .inr happly.cache
  · intro id
    -- the flags of the operation carry on from the last one before
    obtain ⟨b, htoggles, hb⟩ := h.toggles id
    have hb := hb.resolve_left (hprepared.not_dissolved hallowed)
    refine ⟨_, ?_, .inr rfl⟩
    simp only [reportedOf_append, reportedOf_asked, reportedOf_nil, List.append_nil, flagsOf_append]
    exact htoggles.append (hb ▸ hprepared.reports.toggles id)

section Invariant

variable {Q : List (Incident κ) → Session κ → Prop}
  (between : ∀ l l' (a b : Session κ) heard, s.Proceeds l a → a.Passes heard b → askedOf l' = [] →
    reportedOf l' = [] → announcedOf l' = heard → Q l a → Q (l ++ l') b)
  (asked : ∀ l (a : Session κ) op held grip, s.Proceeds l a → a.Prepared op held grip →
    a.Allows op → Q l a → Q (l ++ [⟨a, .asked op⟩]) (a.adopt op (a.cache.apply op)))

include between asked

theorem Proceeds.invariant_from (h : m.Proceeds log s') (hpast : s.Proceeds l m) (hm : Q l m) :
    Q (l ++ log) s' := by
  -- `l` grows with each incident, so that what is preserved may depend on all that has happened
  induction h generalizing l with
  | done m =>
    rw [List.append_nil]
    exact hm
  | pass passes _ ih =>
    have hnow := hpast.trans (.pass passes (.done _))
    have hnext := between l [] _ _ [] hpast passes rfl rfl rfl hm
    rw [List.append_nil] at hnow hnext
    exact ih hnow hnext
  | operate prepared allowed _ ih =>
    rw [List.append_cons]
    exact ih (hpast.trans (.operate prepared allowed (.done _)))
      (asked l _ _ _ _ hpast prepared allowed hm)
  | tell consistent keeps heard _ ih =>
    rw [List.append_cons]
    exact ih (hpast.trans (.tell consistent keeps heard (.done _)))
      (between l _ _ _ _ hpast heard rfl rfl (by simp) hm)
  | answer consistent keeps _ ih =>
    rw [List.append_cons]
    exact ih (hpast.trans (.answer consistent keeps (.done _)))
      (between l _ _ _ _ hpast (.refl _) rfl rfl rfl hm)

/-- What operations and the changes between them preserve, holds wherever the session comes to. -/
theorem Proceeds.invariant (h : s.Proceeds log s') (hs : Q [] s) : Q log s' :=
  h.invariant_from between asked (.done s) hs

end Invariant

theorem Proceeds.follows (h : s.Proceeds log s') : s.Follows log s' :=
  h.invariant (fun _ _ _ _ _ _ hpasses hasked hreported hannounced hfollows =>
      hfollows.pass hpasses hasked hreported hannounced)
    (fun _ _ _ _ _ _ hprepared hallowed hfollows => hfollows.operate hprepared hallowed)
    (.start s)

/-! ## What has become of things -/

theorem Prepared.outlives {op : Operation κ} {held : List ClientId} {grip : List ValueId}
    (h : s.Prepared op held grip) (hallowed : s.Allows op) :
    s.Outlives (s.adopt op (s.cache.apply op)) where
  evolves := h.evolves
  clients := .refl _
  dissolved := fun hdissolved => absurd hdissolved (h.not_dissolved hallowed)

theorem Proceeds.outlives (h : s.Proceeds log s') : s.Outlives s' := by
  induction h with
  | done s => exact .refl s
  | pass passes _ ih => exact passes.outlives.trans ih
  | operate prepared allowed _ ih => exact (prepared.outlives allowed).trans ih
  | tell _ _ heard _ ih => exact heard.outlives.trans ih
  | answer _ _ _ ih => exact ih

theorem Proceeds.outlives_of_mem (h : s.Proceeds log s') (hi : i ∈ log) : i.state.Outlives s' := by
  obtain ⟨before, after, rfl⟩ := List.append_of_mem hi
  exact h.split.2.outlives

/-- What an operation has left is later what it was, or gone. -/
theorem Proceeds.evolves_since (h : s.Proceeds log s') (hi : i ∈ log) {op : Operation κ}
    (hop : i.what = .asked op) :
    (i.state.cache.apply op).cache.entries.Evolves s'.cache.entries := by
  obtain ⟨before, after, rfl⟩ := List.append_of_mem hi
  obtain ⟨m, what⟩ := i
  obtain rfl : what = .asked op := hop
  exact h.split.2.operated.outlives.evolves

theorem Prepared.keepsInFlight {op : Operation κ} {held : List ClientId} {grip : List ValueId}
    (h : s.Prepared op held grip) (hkept : s.KeepsInFlight) :
    (s.adopt op (s.cache.apply op)).KeepsInFlight := by
  intro id hid
  rcases List.mem_append.1 hid with hid | hid
  · obtain ⟨e, he, _⟩ := h.reports.alive hid
    exact h.exists_later he
  · obtain ⟨e, he⟩ := hkept id hid
    exact h.exists_later he

/-- What is kept for the time being stays where it is. -/
theorem Proceeds.keepsInFlight (h : s.Proceeds log s') (hkept : s.KeepsInFlight) :
    s'.KeepsInFlight := by
  induction h with
  | done => exact hkept
  | pass passes _ ih => exact ih (passes.kept hkept)
  | operate prepared _ _ ih => exact ih (prepared.keepsInFlight hkept)
  | tell _ _ heard _ ih => exact ih (heard.kept hkept)
  | answer _ _ _ ih => exact ih hkept

/-! ## Where something happens -/

/-- Where something happens, the session is ready for an operation, or an observer is told and all that
it may look at is kept. -/
theorem Proceeds.prepared_or_attends (h : s.Proceeds log s') (hi : i ∈ log) :
    (∃ op held grip, i.what = .asked op ∧ i.state.Allows op ∧ i.state.Prepared op held grip) ∨
      ∃ (d : Errand) (held : _) (grip : _), (∀ id ∈ d.keeps, id ∈ i.state.inFlight) ∧
        i.state.Consistent i.state.inFlight held grip := by
  cases hwhat : i.what with
  | asked op =>
    obtain ⟨hallowed, held, grip, hprepared⟩ := h.prepared hi hwhat
    exact .inl ⟨op, held, grip, rfl, hallowed, hprepared⟩
  | told d =>
    obtain ⟨hkeeps, held, grip, hconsistent⟩ := h.attends hi (.inl hwhat)
    exact .inr ⟨d, held, grip, hkeeps, hconsistent⟩
  | answered d =>
    obtain ⟨hkeeps, held, grip, hconsistent⟩ := h.attends hi (.inr hwhat)
    exact .inr ⟨d, held, grip, hkeeps, hconsistent⟩

theorem Proceeds.owned (h : s.Proceeds log s') (hi : i ∈ log) : i.state.cache.Owned := by
  rcases h.prepared_or_attends hi with ⟨_, _, _, _, _, hprepared⟩ | ⟨_, _, _, _, hconsistent⟩
  · exact hprepared.owned
  · exact hconsistent.owned

theorem Proceeds.not_dissolved (h : s.Proceeds log s') (hkept : s.KeepsInFlight) (hi : i ∈ log) :
    ¬ i.state.Dissolved := by
  rcases h.prepared_or_attends hi with ⟨_, _, _, _, hallowed, hprepared⟩ | ⟨d, _, _, hkeeps, _⟩
  · exact hprepared.not_dissolved hallowed
  · -- the entry that somebody is told about is there
    intro hdissolved
    obtain ⟨before, after, rfl⟩ := List.append_of_mem hi
    obtain ⟨e, he⟩ := h.split.1.keepsInFlight hkept _ (hkeeps d.notice.entry List.mem_cons_self)
    simp [hdissolved.2] at he

/-- Where the session is ready for an operation, the values of all entries are there. -/
theorem Prepared.unreleased {op : Operation κ} {held : List ClientId} {grip : List ValueId}
    (h : s.Prepared op held grip) {id : EntryId} {e : Entry κ} (he : s.cache.entries.get? id = some e) :
    ∃ value, s.values.get? e.value = some value ∧ s.releases e.value = 0 := by
  -- the table that the books are ready for has the entry as well
  obtain ⟨e', he'⟩ := s.cache.exists_tableAfter op he
  obtain ⟨e₀, he₀, hbecomes⟩ := (s.cache.evolves_tableAfter op).earlier id e'
    (Register.lt_next_of_get? _ he) he'
  obtain rfl : e₀ = e := Option.some.inj (he₀.symm.trans he)
  exact hbecomes.value_eq ▸ h.balanced.unreleased he'

/-- And so they are wherever something happens. -/
theorem Proceeds.unreleased (h : s.Proceeds log s') (hi : i ∈ log) {id : EntryId} {e : Entry κ}
    (he : i.state.cache.entries.get? id = some e) :
    ∃ value, i.state.values.get? e.value = some value ∧ i.state.releases e.value = 0 := by
  rcases h.prepared_or_attends hi with ⟨_, _, _, _, _, hprepared⟩ | ⟨_, _, _, _, hconsistent⟩
  · exact hprepared.unreleased he
  · exact hconsistent.balanced.unreleased he

/-! ## Between steps -/

theorem AtRest.keepsInFlight (h : s.AtRest) : s.KeepsInFlight := by
  simp [KeepsInFlight, h.inFlight_eq]

/-- As long as somebody shares the cache, it has not been torn down. -/
theorem AtRest.not_dissolved (h : s.AtRest) (hshared : s.present = true ∨ s.clients.isEmpty = false) :
    ¬ s.Dissolved := by
  rintro ⟨habsent, hnone⟩
  have hclients := hshared.resolve_left (by simp [habsent])
  rw [← Bool.not_eq_true, Register.isEmpty_iff] at hclients
  refine hclients fun c => ?_
  cases hc : s.clients.get? c with
  | none => rfl
  | some client =>
    -- a client leads to an entry
    obtain ⟨client', e, _, he, _⟩ := h.consistent.balanced.exists_client (h.refsOf_pos hc)
    simp [hnone] at he

end Session

end RefCache
