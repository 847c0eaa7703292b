import RefCache.Proofs.Budget.TakingOut
import RefCache.Proofs.Session.Chronicle
import RefCache.Proofs.Session.Subsiding

/-!
# Values that change hands

A value that is taken out of the cache (`Session.takenOut`) belongs to whoever has asked, who can give it back
(`Session.give`). It is not released on either way. If it is taken in again, its new client keeps it
(`Session.Keeps`), whatever observers ask for in the meantime.
-/

namespace RefCache

universe u

variable {κ : Type u} [Key κ]

/-- The entry is cached under the key, and nobody holds it. -/
structure Cache.Lends (c : Cache κ) (k : κ) (id : EntryId) (e : Entry κ) : Prop where
  cached : c.cached.get? k = some id
  entry : c.entries.get? id = some e
  unheld : e.clients = 0

namespace Cache

variable {c : Cache κ} {k : κ} {id : EntryId} {e : Entry κ}

/-- A value that is taken in has its row when the operation has come to its end. -/
theorem exists_stored (howned : c.Owned) {base : List EntryId} (hkept : c.KeepsOrphans base)
    {w : Surroundings} {v : ValueId} {size : Nat} {observer : Option String}
    (hfound : (c.store w k v size observer).1 = some id) :
    ∃ e, (c.apply (.store w k v size observer)).cache.entries.get? id = some e ∧ e.value = v := by
  let e₁ : Entry κ := { key := k, value := v, size := size, observer := observer }
  -- the new row is added under the next number, with a client
  have hid := eq_next_of_store howned hkept hfound
  have hrow : (c.tableAfter (.store w k v size observer)).get? id = some e₁.addClient := by
    rw [tableAfter, hfound, hid]
    show Register.get? ((c.entries.add e₁).update c.entries.next Entry.addClient) _ = _
    rw [Register.get?_update, if_pos rfl, Register.get?_add, if_pos rfl]
    rfl
  -- the operation marks rows and takes none away
  have horderly : (c.apply (.store w k v size observer)).Orderly (c.tableAfter (.store w k v size observer)) base
      [] := apply_orderly howned hkept trivial trivial
  obtain ⟨e, he, hages⟩ := horderly.marks.later id _ hrow
  exact ⟨e, he, (Entry.eq_of_withoutMarks hages.same).2.1⟩

theorem OwnedExcept.lends_iff (howned : c.Owned) (k : κ) :
    (∃ e, c.Lends k id e) ↔ (c.reuse k).1 = some id := by
  rw [reuse_fst, howned.remove_eq_some_iff]
  constructor
  · rintro ⟨e, hcached, he, hunheld⟩
    exact ⟨hcached, (EntryTable.clients_of_get? he).trans hunheld⟩
  · rintro ⟨hcached, hclients⟩
    obtain ⟨e, he, _⟩ := howned.mem_cached_of_get? hcached
    exact ⟨e, hcached, he, (EntryTable.clients_of_get? he).symm.trans hclients⟩

/-- What is taken out is marked as having left, and its observer is told that it is no longer exclusive. -/
theorem Lends.reuse_eq (h : c.Lends k id e) (howned : c.Owned) : (c.reuse k).1 = some id ∧
    (c.reuse k).2.cache.entries.get? id = some e.markOrphan ∧ (c.reuse k).2.notices = [⟨id, false⟩] := by
  have hfound : (c.reuse k).1 = some id := (howned.lends_iff k).1 ⟨e, h⟩
  have hremoved : (c.policy.remove k).1 = some id := (c.reuse_fst k).symm.trans hfound
  have hunqueue : (c.start.unqueue k).2.notices = [⟨id, false⟩] := by
    rw [Transition.unqueue_eq, show c.start.cache.policy = c.policy from rfl, hremoved]
    rfl
  -- the row stays, marked as an orphan
  refine ⟨hfound, ?_, ?_⟩
  · rw [reuse_of_some hremoved]
    show Register.get? (((c.start.unqueue k).2.detach k).2.cache.entries.update id Entry.markOrphan) id = _
    rw [Register.get?_update, if_pos rfl, Transition.entries_detach, Transition.entries_unqueue]
    exact congrArg (Option.map Entry.markOrphan) h.entry
  · -- taking it out of the map reports nothing more
    rw [reuse_of_some hremoved, ← hunqueue]
    show ((c.start.unqueue k).2.detach k).2.notices = _
    unfold Transition.detach
    split <;> rfl

end Cache

namespace Session

/-- The client has an entry that carries the value, and the value has not been released. -/
structure Keeps (s : Session κ) (c : ClientId) (v : ValueId) : Prop where
  carried : ∃ client e, s.clients.get? c = some client ∧ s.cache.entries.get? client.entry = some e ∧
    e.value = v
  unreleased : ∃ value, s.values.get? v = some value ∧ s.releases v = 0

/-- The cache takes the value in if it is asked now. -/
def WouldStore (s : Session κ) (k : κ) (v : ValueId) (observer : Option String) : Prop :=
  (s.cache.store s.surroundings k v (((s.values.get? v).map Value.size).getD 0)
    (observer.or s.defaultObserver)).1.isSome = true

/-- The observer of the entry, if it has one, is not going to react when it is told that the entry is no longer
exclusive. -/
def Unanswered (s : Session κ) (k : κ) (e : Entry κ) : Prop :=
  e.observer.isSome = true → ∀ r ∈ s.reactions, r.key = k → r.exclusive = true

/-- The session once a value has been taken out of the cache, whose handle belongs to the request. -/
def takenOut (respond : Responder κ) (s : Session κ) (k : κ) (v : ValueId) : Session κ :=
  (s.addHandle v).finish respond (.reuse k) (s.cache.apply (.reuse k))

/-- Caches the value of a handle, which is used up with that. -/
def give (respond : Responder κ) (s : Session κ) (k : κ) (handle : String) (observer : Option String) :
    Option ClientId × Session κ :=
  match s.handles[handle]? with
  | none => (none, s)
  | some v =>
    let (client, s) := { s with handles := s.handles.erase handle }.storeValue respond k v observer
    (client, s.dropHandle v)

variable {s t : Session κ} {respond : Responder κ} {held : List ClientId} {grip : List ValueId}
  {op : Operation κ} {c : ClientId} {client : Client} {k : κ} {id : EntryId} {e : Entry κ} {v : ValueId}

/-! ## What a client keeps -/

theorem Keeps.exists_view (h : s.Keeps c v) : ∃ view, s.view? c = some view := by
  obtain ⟨client, e, hclient, he, rfl⟩ := h.carried
  obtain ⟨value, hvalue, _⟩ := h.unreleased
  exact ⟨⟨value.tag, e.accesses, e.clients⟩, by simp [view?, hclient, he, hvalue]⟩

/-- The rest of an operation leaves entries and clients what they are, or takes them away. -/
theorem Prepared.outlives_finish (h : s.Prepared op held grip) (hrespond : Unfolding respond) :
    (s.adopt op (s.cache.apply op)).Outlives (s.finish respond op (s.cache.apply op)) := by
  have hadopted := h.adopt
  have htold := hadopted.own.tellAll hrespond.responds.sound (s.cache.apply op).notices
  obtain ⟨log, hlog⟩ := hadopted.own.unfolds_tellAll hrespond (s.cache.apply op).detached
    (s.cache.apply op).notices fun id hid => hadopted.inFlight_eq.symm ▸ List.mem_append_left _ hid
  exact hlog.unfolds.proceeds.outlives.trans (passes_letGoAll _ htold.own.owned).outlives

/-- A client whose reference the operation holds has its entry when everybody has been told. -/
theorem Prepared.keeps (h : s.Prepared op (c :: held) grip) (hrespond : Unfolding respond)
    (hclient : s.clients.get? c = some client)
    (he : (s.cache.apply op).cache.entries.get? client.entry = some e) :
    (s.finish respond op (s.cache.apply op)).Keeps c e.value := by
  have houtlives := h.outlives_finish hrespond
  have hfinished := (h.finish hrespond.responds.sound).own
  obtain ⟨client', e', hclient', he', _⟩ := hfinished.balanced.exists_client (c := c)
    (by rw [List.count_cons_self]; omega)
  -- the client that is there is the one that was there, and so is the entry
  obtain ⟨client₀, hclient₀, hentry⟩ :=
    houtlives.clients.earlier c client' (Register.lt_next_of_get? _ hclient) hclient'
  obtain rfl : client₀ = client := Option.some.inj (hclient₀.symm.trans hclient)
  rw [hentry] at he'
  obtain ⟨e₀, he₀, hbecomes⟩ := houtlives.evolves.earlier _ e' (Register.lt_next_of_get? _ he) he'
  obtain rfl : e₀ = e := Option.some.inj (he₀.symm.trans he)
  rw [← hbecomes.value_eq]
  exact ⟨⟨client', e', hclient', hentry ▸ he', rfl⟩, hfinished.balanced.unreleased he'⟩

/-- A value that is taken in has a client that keeps it. -/
theorem Consistent.keeps_stored (h : s.Consistent s.inFlight held grip) (hrespond : Unfolding respond)
    (hv : 0 < s.namesOf v + s.cache.entries.carriers v + grip.count v) {observer : Option String}
    (haccepted : s.WouldStore k v observer) :
    (s.storeValue respond k v observer).1 = some s.clients.next ∧
      (s.storeValue respond k v observer).2.Keeps s.clients.next v := by
  obtain ⟨id, hfound⟩ := Option.isSome_iff_exists.1 haccepted
  have hprepared := h.prepared_stored hv rfl hfound
  -- the client is there before the operation, and stays
  have hclient : ((s.afterReading.addHandle v).addClient id).2.clients.get? s.clients.next
      = some { entry := id } := by
    show (s.clients.add { entry := id }).get? s.clients.next = _
    rw [Register.get?_add, if_pos rfl]
  obtain ⟨e, he, hvalue⟩ := Cache.exists_stored h.owned h.kept hfound
  have hkeeps := hprepared.keeps hrespond hclient he
  unfold Session.storeValue
  dsimp only
  rw [hfound]
  exact ⟨rfl, hvalue ▸ hkeeps⟩

/-! ## Giving -/

/-- Of a value that is given away a client is left. -/
theorem Consistent.keeps_given (h : s.Consistent s.inFlight held grip) (hrespond : Unfolding respond)
    {handle : String} (hhandle : s.handles[handle]? = some v) {observer : Option String}
    (haccepted : s.WouldStore k v observer) :
    (s.give respond k handle observer).1 = some s.clients.next ∧
      (s.give respond k handle observer).2.Keeps s.clients.next v := by
  -- the handle goes out of its name into the hands of the operation
  let s₁ : Session κ := { s with handles := s.handles.erase handle }
  have hunnamed : s.Settles s₁ s.inFlight held (v :: grip) :=
    h.withBooks ⟨rfl, rfl, rfl, rfl, rfl⟩ rfl (h.balanced.unnameHandle hhandle)
  have hv : 0 < s₁.namesOf v + s₁.cache.entries.carriers v + (v :: grip).count v := by
    rw [List.count_cons_self]
    omega
  obtain ⟨hclient, hkeeps⟩ := hunnamed.own.keeps_stored (k := k) hrespond hv haccepted
  obtain ⟨client, e, hget, he, rfl⟩ := hkeeps.carried
  -- the handle goes, and the entry still carries the value
  have hstored := hunnamed.own.storeValue hrespond.responds.sound k hv observer
  have hsame := (s₁.storeValue respond k e.value observer).2.sameHolders_dropHandle e.value
  have hdropped := hstored.own.dropHandle.own
  unfold give
  rw [hhandle]
  refine ⟨hclient, ⟨client, e, hsame.clients_eq ▸ hget, hsame.cache_eq ▸ he, rfl⟩, ?_⟩
  exact hdropped.balanced.unreleased (hsame.cache_eq ▸ he)

/-! ## Taking out -/

theorem bind_reuse (howned : s.cache.Owned) (h : s.cache.Lends k id e) :
    ((s.cache.reuse k).1.bind fun id => (s.cache.reuse k).2.cache.entries.get? id) = some e.markOrphan := by
  obtain ⟨hfound, hentry, _⟩ := h.reuse_eq howned
  rw [hfound]
  exact hentry

/-- What a request comes to that takes a value out. -/
theorem reuse_of_lends (howned : s.cache.Owned) (h : s.cache.Lends k id e) (respond : Responder κ)
    (into : Option String) : s.reuse respond k into = ((s.takenOut respond k e.value).placeHandle e.value into,
      .takenOut (((s.takenOut respond k e.value).values.get? e.value).map fun v => (v.tag, v.handles))) := by
  unfold Session.reuse
  dsimp only
  rw [bind_reuse howned h]
  rfl

/-- And of one that takes none. -/
theorem reuse_of_not_lends (howned : s.cache.Owned) (h : ∀ id e, ¬ s.cache.Lends k id e)
    (respond : Responder κ) (into : Option String) : (s.reuse respond k into).2 = .takenOut none := by
  have hnone : (s.cache.reuse k).1 = none := by
    rw [Option.eq_none_iff_forall_ne_some]
    intro id hfound
    obtain ⟨e, he⟩ := (howned.lends_iff k).2 hfound
    exact h id e he
  unfold Session.reuse
  dsimp only
  rw [hnone]
  rfl

theorem Consistent.settles_takenOut (h : s.Consistent s.inFlight held grip) (hrespond : Sound respond)
    (hlends : s.cache.Lends k id e) :
    s.Settles (s.takenOut respond k e.value) s.inFlight held (e.value :: grip) :=
  (h.prepared_takenOut (bind_reuse h.owned hlends)).operate (s := s) hrespond ⟨rfl, rfl, rfl, rfl, rfl⟩ rfl

/-- Unless the observer of the entry reacts, the cache is what the operation makes of it, and the value what
it was. -/
theorem Consistent.subsides_takenOut (h : s.Consistent s.inFlight held grip) (respond : Responder κ)
    (hlends : s.cache.Lends k id e) (hignored : s.Unanswered k e) :
    ((s.addHandle e.value).adopt (.reuse k) (s.cache.apply (.reuse k))).Subsides
      (s.takenOut respond k e.value) := by
  obtain ⟨_, hentry, hnotices⟩ := hlends.reuse_eq h.owned
  refine (h.prepared_takenOut (bind_reuse h.owned hlends)).subsides_of_ignored respond ?_
  intro n hn e' he' hobserver r hr hkey
  obtain rfl : n = ⟨id, false⟩ := List.mem_singleton.1 (hnotices ▸ hn)
  obtain rfl : e.markOrphan = e' := Option.some.inj (hentry.symm.trans he')
  obtain ⟨e₀, he₀, hkey₀, _⟩ := h.owned.mem_cached_of_get? hlends.cached
  obtain rfl : e₀ = e := Option.some.inj (he₀.symm.trans hlends.entry)
  have hexclusive := hignored hobserver r hr (hkey.trans hkey₀)
  rw [hexclusive]
  exact Bool.noConfusion

/-- A handle gets its name, and values keep their sizes. -/
theorem size_of_get?_placeHandle {w : ValueId} {into : Option String} {value' : Value}
    (h : (s.placeHandle w into).values.get? v = some value') :
    ∃ value, s.values.get? v = some value ∧ value'.size = value.size := by
  cases into with
  | none => exact (s.subsides_dropHandle w).values v value' h
  | some name =>
    unfold placeHandle at h
    dsimp only at h
    split at h
    · exact ⟨value', h, rfl⟩
    · exact (subsides_dropHandle { s with handles := s.handles.insert name w } _).values v value' h

/-- A value that was taken out has the size that its entry had. -/
theorem Consistent.size_takenOut (h : s.Consistent s.inFlight held grip) (respond : Responder κ)
    (hlends : s.cache.Lends k id e) (hignored : s.Unanswered k e)
    {into : Option String} {value' : Value}
    (hvalue' : ((s.takenOut respond k e.value).placeHandle e.value into).values.get? e.value = some value') :
    value'.size = e.size := by
  obtain ⟨value₂, hvalue₂, hsize₂⟩ := size_of_get?_placeHandle hvalue'
  obtain ⟨value₁, hvalue₁, hsize₁⟩ :=
    (h.subsides_takenOut respond hlends hignored).values _ _ hvalue₂
  obtain ⟨value, hvalue, hsize⟩ := (s.subsides_addHandle e.value).values _ _ hvalue₁
  have hmeasured := h.balanced.measured id e hlends.entry value hvalue
  omega

/-- Under the limits that the cache keeps to, a value that was taken out is taken in again. -/
theorem Consistent.wouldStore_back (h : s.Consistent s.inFlight held grip) (respond : Responder κ)
    (hlends : s.cache.Lends k id e) (hignored : s.Unanswered k e) (hkeeps : s.cache.KeepsTo s.offered)
    (into observer : Option String) (ht : (s.takenOut respond k e.value).placeHandle e.value into = t)
    (hthere : ∃ value, t.values.get? e.value = some value) : t.WouldStore k e.value observer := by
  obtain ⟨value, hvalue⟩ := hthere
  -- in between only handles have changed
  subst ht
  have hsubsides := h.subsides_takenOut respond hlends hignored
  have hsame := (s.takenOut respond k e.value).sameHolders_placeHandle e.value into
  have hforgets := hsubsides.forgets
  rw [← hsame.cache_eq] at hforgets
  have hoffered : ((s.takenOut respond k e.value).placeHandle e.value into).surroundings.offered = s.offered :=
    hsame.offered_eq.trans hsubsides.offered_eq
  -- so the value is offered as it was taken out
  unfold WouldStore
  rw [hvalue, Option.map_some, Option.getD_some, h.size_takenOut respond hlends hignored hvalue]
  exact hkeeps.accepts_back (hlends.reuse_eq h.owned).1 hlends.entry hforgets hoffered e.value _

end Session

end RefCache
