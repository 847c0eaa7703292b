import RefCache.Proofs.Session.Delivery

/-!
# Requests keep a session consistent

Every request, with all that observers do about it, takes a consistent session to a consistent one
(`Consistent.performWith`). Requests are nested in each other as observers react, so soundness of one
level of nesting gives that of the next (`sound_performNested`).
-/

namespace RefCache

universe u

variable {κ : Type u} [Key κ]

namespace Session

variable {s s' s₁ : Session κ} {respond : Responder κ} {held held' : List ClientId}
  {grip grip' : List ValueId}

/-! ## Operations of the cache -/

/-- The books are ready in `s₁` for an operation that the session is asked for. -/
theorem Consistent.prepared (h : s.Consistent s.inFlight held grip) {op : Operation κ}
    (hdetermined : op.KeyDetermined) (haccepts : s.cache.Accepts s.inFlight op)
    (hoffered : ∀ w, op.surroundings? = some w → w.offered = s.offered) (hframe : s.Frame s₁)
    (hcache : s₁.cache = s.cache) (hbalanced : s₁.Balanced (s.cache.tableAfter op) held' grip') :
    s₁.Prepared op held' grip' where
  owned := hcache ▸ h.owned
  kept := hcache ▸ hframe.inFlight_eq ▸ h.kept
  determined := hdetermined
  accepts := hcache ▸ hframe.inFlight_eq ▸ haccepts
  offered := hframe.offered_eq ▸ hoffered
  balanced := hcache ▸ hbalanced
  reactions := hframe.reactions_eq ▸ h.reactions

/-- An operation whose books are ready in `s₁` is performed with all its consequences. -/
theorem Prepared.operate {op : Operation κ} (h : s₁.Prepared op held grip)
    (hrespond : Sound respond) (hframe : s.Frame s₁) (hcache : s₁.cache = s.cache) :
    s.Settles (s₁.finish respond op (s.cache.apply op)) s.inFlight held grip := by
  have hfinished := h.finish hrespond
  rw [hcache, hframe.inFlight_eq] at hfinished
  exact ⟨hfinished.consistent, hfinished.inFlight_eq,
    (hframe.leads (hcache ▸ .start)).trans hfinished.leads⟩

/-- The surroundings of an operation are those of the session. -/
private theorem offered_of_eq {op : Operation κ} (h : op.surroundings? = some s.surroundings) :
    ∀ w, op.surroundings? = some w → w.offered = s.offered := by
  intro w hw
  rw [h, Option.some.injEq] at hw
  rw [← hw]
  rfl

/-- The clock is read, and the operation changes nothing that the books are about. -/
theorem Consistent.prepared_afterReading (h : s.Consistent s.inFlight held grip) {op : Operation κ}
    (hdetermined : op.KeyDetermined) (haccepts : s.cache.Accepts s.inFlight op)
    (hsurroundings : op.surroundings? = some s.surroundings)
    (htable : s.cache.tableAfter op = s.cache.entries) : s.afterReading.Prepared op held grip :=
  h.prepared hdetermined haccepts (offered_of_eq hsurroundings) ⟨rfl, rfl, rfl, rfl, rfl⟩ rfl
    (htable ▸ h.balanced.afterReading)

/-- A value that is turned down. -/
theorem Consistent.prepared_rejected (h : s.Consistent s.inFlight held grip) {k : κ} {v : ValueId}
    {size : Nat} {observer : Option String}
    (hfound : (s.cache.store s.surroundings k v size observer).1 = none) :
    s.afterReading.Prepared (.store s.surroundings k v size observer) held grip :=
  h.prepared_afterReading trivial trivial rfl (by rw [Cache.tableAfter, hfound])

/-- A value that comes in: its entry carries it, and the first client is held by the operation. -/
theorem Consistent.prepared_stored (h : s.Consistent s.inFlight held grip) {k : κ} {v : ValueId}
    (hv : 0 < s.namesOf v + s.cache.entries.carriers v + grip.count v) {size : Nat}
    (hsize : size = ((s.values.get? v).map Value.size).getD 0) {observer : Option String} {id : EntryId}
    (hfound : (s.cache.store s.surroundings k v size observer).1 = some id) :
    ((s.afterReading.addHandle v).addClient id).2.Prepared (.store s.surroundings k v size observer)
      (s.clients.next :: held) grip := by
  let e : Entry κ := { key := k, value := v, size := size, observer := observer }
  have hid : id = s.cache.entries.next := Cache.eq_next_of_store h.owned h.kept hfound
  -- the size that the cache is told is that of the value, however many handles that has by now
  have hmeasured : ∀ value, (s.afterReading.addHandle v).values.get? v = some value → value.size = size := by
    intro value hvalue
    change (s.values.update v _).get? v = some value at hvalue
    rw [Register.get?_update, if_pos rfl] at hvalue
    obtain ⟨value₀, hvalue₀, rfl⟩ := Option.map_eq_some_iff.1 hvalue
    rw [hsize, hvalue₀]
    rfl
  have hadded : (s.afterReading.addHandle v).Balanced (s.cache.entries.add e) held grip :=
    (h.balanced.afterReading.addHandle hv).addEntry rfl hmeasured
  -- the number that the entry gets is the one under which it is looked up
  have hget : Register.get? (s.cache.entries.add e) id = some e := by
    rw [Register.get?_add, if_pos hid.symm]
  have hbalanced := hadded.addClient hget
  have htable : s.cache.tableAfter (.store s.surroundings k v size observer)
      = (s.cache.entries.add e).update id Entry.addClient := by
    rw [Cache.tableAfter, hfound, hid]
    rfl
  rw [← htable] at hbalanced
  exact h.prepared trivial trivial (offered_of_eq rfl) ⟨rfl, rfl, rfl, rfl, rfl⟩ rfl hbalanced

/-- A value that is there is cached; its client, if it gets one, has a copy of its reference. -/
theorem Consistent.storeValue (h : s.Consistent s.inFlight held grip) (hrespond : Sound respond)
    (k : κ) {v : ValueId} (hv : 0 < s.namesOf v + s.cache.entries.carriers v + grip.count v)
    (observer : Option String) :
    s.Settles (s.storeValue respond k v observer).2 s.inFlight
      ((s.storeValue respond k v observer).1.toList ++ held) grip := by
  unfold Session.storeValue
  dsimp only
  cases hfound : (s.cache.store s.surroundings k v (((s.values.get? v).map Value.size).getD 0)
      (observer.or s.defaultObserver)).1 with
  | none => exact (h.prepared_rejected hfound).operate hrespond ⟨rfl, rfl, rfl, rfl, rfl⟩ rfl
  | some id => exact (h.prepared_stored hv rfl hfound).operate hrespond ⟨rfl, rfl, rfl, rfl, rfl⟩ rfl

/-- The outcome of an attempt to cache a value gets to its holder. -/
theorem Consistent.placeStored {client : Option ClientId}
    (h : s.Consistent s.inFlight (client.toList ++ held) grip) (hrespond : Sound respond)
    (into : Option String) :
    s.Settles (s.placeStored respond client into).1 s.inFlight held grip := by
  cases client with
  | none => exact h.settles
  | some c => exact (h.placeRef hrespond into).1

/-! ## Requests that need the cache -/

theorem Consistent.put (h : s.Consistent s.inFlight held grip) (hrespond : Sound respond)
    (k : κ) (value : NewValue) (observer into : Option String) :
    s.Settles (s.put respond k value observer into).1 s.inFlight held grip := by
  have hcreated : s.Settles (s.createValue value).2 s.inFlight held
      ((s.createValue value).1 :: grip) :=
    h.withBooks ⟨rfl, rfl, rfl, rfl, rfl⟩ rfl (h.balanced.createValue value)
  have hstored := hcreated.own.storeValue hrespond k (v := (s.createValue value).1)
    (by rw [List.count_cons_self]; omega) observer
  have hnow := (hcreated.andThen hstored).andThen hstored.own.dropHandle
  exact hnow.andThen (hnow.own.placeStored hrespond into)

theorem Consistent.store (h : s.Consistent s.inFlight held grip) (hrespond : Sound respond)
    (k : κ) (handle : String) (observer into : Option String) :
    s.Settles (s.store respond k handle observer into).1 s.inFlight held grip := by
  unfold Session.store
  split
  · exact h.settles
  · rename_i v hname
    have hpos := namesOf_pos hname
    have hstored := h.storeValue hrespond k (v := v) (by omega) observer
    exact hstored.andThen (hstored.own.placeStored hrespond into)

/-- A request that is not answered. -/
theorem Consistent.prepared_missed (h : s.Consistent s.inFlight held grip) {k : κ}
    (hfound : (s.cache.get s.surroundings k).1 = none) :
    s.afterReading.Prepared (.get s.surroundings k) held grip :=
  h.prepared_afterReading trivial trivial rfl (by rw [Cache.tableAfter, hfound])

/-- What is handed out was cached, so it can get a client. -/
theorem Consistent.prepared_answered (h : s.Consistent s.inFlight held grip) {k : κ} {id : EntryId}
    (hfound : (s.cache.get s.surroundings k).1 = some id) :
    (s.afterReading.addClient id).2.Prepared (.get s.surroundings k) (s.clients.next :: held)
      grip := by
  obtain ⟨size, hmem⟩ := Cache.mem_cached_of_get hfound
  obtain ⟨e, he, _⟩ := h.owned.entry_of_cached _ hmem
  have htable : s.cache.tableAfter (.get s.surroundings k)
      = s.cache.entries.update id Entry.addClient := by
    rw [Cache.tableAfter, hfound]
  have hbalanced := h.balanced.afterReading.addClient he
  rw [← htable] at hbalanced
  exact h.prepared trivial trivial (offered_of_eq rfl) ⟨rfl, rfl, rfl, rfl, rfl⟩ rfl hbalanced

theorem Consistent.get (h : s.Consistent s.inFlight held grip) (hrespond : Sound respond)
    (k : κ) (into : Option String) :
    s.Settles (s.get respond k into).1 s.inFlight held grip := by
  unfold Session.get Session.handOver
  dsimp only
  cases hfound : (s.cache.get s.surroundings k).1 with
  | none => exact (h.prepared_missed hfound).operate hrespond ⟨rfl, rfl, rfl, rfl, rfl⟩ rfl
  | some id =>
    have hnow := (h.prepared_answered hfound).operate (s := s) hrespond ⟨rfl, rfl, rfl, rfl, rfl⟩ rfl
    exact hnow.andThen (hnow.own.placeRef hrespond into).1

/-- What a request comes to that is answered. -/
theorem fst_get_of_found {k : κ} {id : EntryId} (hfound : (s.cache.get s.surroundings k).1 = some id)
    (into : Option String) : (s.get respond k into).1
      = ((s.afterReading.addClient id).2.finish respond (.get s.surroundings k)
          (s.cache.apply (.get s.surroundings k))).placeRef respond s.clients.next into := by
  unfold Session.get Session.handOver
  dsimp only
  rw [hfound]
  rfl

/-- What a request in vain comes to. -/
theorem fst_get_of_missed {k : κ} (hfound : (s.cache.get s.surroundings k).1 = none) (into : Option String) :
    (s.get respond k into).1
      = s.afterReading.finish respond (.get s.surroundings k) (s.cache.apply (.get s.surroundings k)) := by
  unfold Session.get Session.handOver
  dsimp only
  rw [hfound]
  rfl

/-- An operation that asks neither for the time nor for anything the books are about. -/
theorem Consistent.prepared_self (h : s.Consistent s.inFlight held grip) {op : Operation κ}
    (hdetermined : op.KeyDetermined) (haccepts : s.cache.Accepts s.inFlight op)
    (hsurroundings : op.surroundings? = none) (htable : s.cache.tableAfter op = s.cache.entries) :
    s.Prepared op held grip :=
  h.prepared hdetermined haccepts (fun w hw => by simp [hsurroundings] at hw) (.refl s) rfl
    (htable ▸ h.balanced)

/-- The value that is taken out gets a handle: its entry was in the table before as well. -/
theorem Consistent.prepared_takenOut (h : s.Consistent s.inFlight held grip) {k : κ} {e : Entry κ}
    (hfound : ((s.cache.reuse k).1.bind fun id => (s.cache.reuse k).2.cache.entries.get? id)
      = some e) :
    (s.addHandle e.value).Prepared (.reuse k) held (e.value :: grip) := by
  obtain ⟨id, _, he⟩ := Option.bind_eq_some_iff.1 hfound
  have horderly := Cache.reuse_orderly h.owned h.kept k
  obtain ⟨e₀, he₀, hage⟩ := horderly.marks.earlier id e he
  obtain ⟨_, hvalue, _⟩ := Entry.eq_of_withoutMarks hage.same
  have hpos := EntryTable.carriers_pos he₀
  rw [← hvalue] at hpos
  exact h.prepared trivial trivial (fun _ hw => nomatch hw) ⟨rfl, rfl, rfl, rfl, rfl⟩ rfl
    (h.balanced.addHandle (v := e.value) (by omega))

theorem Consistent.reuse (h : s.Consistent s.inFlight held grip) (hrespond : Sound respond) (k : κ)
    (into : Option String) : s.Settles (s.reuse respond k into).1 s.inFlight held grip := by
  unfold Session.reuse
  dsimp only
  split
  · have hprepared : s.Prepared (.reuse k) held grip := h.prepared_self trivial trivial rfl rfl
    exact hprepared.operate hrespond (.refl s) rfl
  · rename_i e hfound
    have hnow := (h.prepared_takenOut hfound).operate (s := s) hrespond ⟨rfl, rfl, rfl, rfl, rfl⟩ rfl
    exact hnow.andThen (hnow.own.placeHandle into)

theorem Consistent.prepared_removeAll (h : s.Consistent s.inFlight held grip) {p : Predicate κ}
    (hp : p.KeyDetermined) : s.afterReading.Prepared (.removeAll s.surroundings p) held grip :=
  h.prepared_afterReading hp trivial rfl rfl

theorem Consistent.prepared_clear (h : s.Consistent s.inFlight held grip) :
    s.afterReading.Prepared (.clear s.surroundings) held grip :=
  h.prepared_afterReading trivial trivial rfl rfl

theorem Consistent.prepared_trim (h : s.Consistent s.inFlight held grip) (pressure : Pressure)
    (ratio : Float) : s.afterReading.Prepared (.trim s.surroundings pressure ratio) held grip :=
  h.prepared_afterReading trivial trivial rfl rfl

theorem Consistent.removeAll (h : s.Consistent s.inFlight held grip) (hrespond : Sound respond)
    {p : Predicate κ} (hp : p.KeyDetermined) :
    s.Settles (s.removeAll respond p).1 s.inFlight held grip :=
  (h.prepared_removeAll hp).operate hrespond ⟨rfl, rfl, rfl, rfl, rfl⟩ rfl

theorem Consistent.trim (h : s.Consistent s.inFlight held grip) (hrespond : Sound respond)
    (pressure : Pressure) : s.Settles (s.trim respond pressure) s.inFlight held grip := by
  have htrim : ∀ (s : Session κ) (ratio : Float), s.Consistent s.inFlight held grip →
      s.Settles (s.afterReading.finish respond (.trim s.surroundings pressure ratio)
        (s.cache.apply (.trim s.surroundings pressure ratio))) s.inFlight held grip :=
    fun s ratio h =>
      (h.prepared_trim pressure ratio).operate hrespond ⟨rfl, rfl, rfl, rfl, rfl⟩ rfl
  unfold Session.trim
  dsimp only
  split
  · exact htrim s _ h
  · -- asking the strategy comes before the operation
    have hrecorded := h.record (e := .ratioAsked pressure) fun _ => rfl
    exact hrecorded.andThen (htrim _ _ hrecorded.own)

theorem Consistent.clear (h : s.Consistent s.inFlight held grip) (hrespond : Sound respond) :
    s.Settles (s.afterReading.finish respond (.clear s.surroundings)
      (s.cache.apply (.clear s.surroundings))) s.inFlight held grip :=
  h.prepared_clear.operate hrespond ⟨rfl, rfl, rfl, rfl, rfl⟩ rfl

theorem Consistent.probe (h : s.Consistent s.inFlight held grip) (hrespond : Sound respond) (k : κ) :
    s.Settles (s.finish respond (.probe k) (s.cache.probe k)) s.inFlight held grip :=
  have hprepared : s.Prepared (.probe k) held grip := h.prepared_self trivial trivial rfl rfl
  hprepared.operate hrespond (.refl s) rfl

/-- A request that the cache has to be there for. -/
theorem Consistent.withCache (h : s.Consistent s.inFlight held grip)
    {go : Session κ → Session κ × Outcome κ}
    (hgo : s.present = true → s.Settles (go s).1 s.inFlight held grip) :
    s.Settles (s.withCache go).1 s.inFlight held grip ∧
      (s.Cleared → (s.withCache go).1.Cleared) := by
  unfold Session.withCache
  split
  · rename_i hpresent
    have hsettles := hgo hpresent
    refine ⟨hsettles, fun _ hdeserted => ?_⟩
    have habsent := ((deserted_iff _).1 hdeserted).1
    rw [hsettles.leads.present_eq, hpresent] at habsent
    exact nomatch habsent
  · exact ⟨h.settles, fun hcleared => hcleared⟩

/-! ## Requests about references and handles -/

/-- A reference that has a name gets one more copy. -/
theorem Consistent.oneMoreCopy (h : s.Consistent s.inFlight held grip) {ref : String} {c : ClientId}
    (hname : s.refs[ref]? = some c) :
    s.Settles { s with clients := s.clients.update c fun c => { c with copies := c.copies + 1 } }
      s.inFlight (c :: held) grip := by
  have hpos := refsOf_pos hname
  obtain ⟨client, _, hclient, _⟩ := h.balanced.exists_client (c := c) (by omega)
  refine h.withBooks ⟨rfl, rfl, rfl, rfl, rfl⟩ rfl
    (h.balanced.recopy hclient _ rfl (Nat.succ_pos _) ?_ fun d hd => ?_)
  · rw [List.count_cons_self]
    dsimp only
    omega
  · exact List.count_cons_of_ne (Ne.symm hd)

theorem Consistent.copyRef (h : s.Consistent s.inFlight held grip) (hrespond : Sound respond)
    {ref : String} {c : ClientId} (hname : s.refs[ref]? = some c)
    (into : Option String) :
    s.Settles (({ s with
        clients := s.clients.update c fun c => { c with copies := c.copies + 1 } } : Session κ).placeRef
          respond c into) s.inFlight held grip ∧
      (s.Cleared → (({ s with
        clients := s.clients.update c fun c => { c with copies := c.copies + 1 } } : Session κ).placeRef
          respond c into).Cleared) := by
  have hcopied := h.oneMoreCopy hname
  obtain ⟨hplaced, hcleared⟩ := hcopied.own.placeRef hrespond into
  refine ⟨hcopied.andThen hplaced, fun _ => hcleared fun hdeserted => ?_⟩
  -- the client that is copied is still there
  have hpos := refsOf_pos hname
  obtain ⟨client, _, hclient, _⟩ := h.balanced.exists_client (c := c) (by omega)
  have hnone := (Register.isEmpty_iff _).1 ((deserted_iff _).1 hdeserted).2.1 c
  rw [Register.get?_update, if_pos rfl, hclient] at hnone
  exact nomatch hnone

/-- A reference loses its name, and has yet to be dropped. -/
theorem Consistent.unnameRef (h : s.Consistent s.inFlight held grip) {ref : String} {c : ClientId}
    (hname : s.refs[ref]? = some c) :
    s.Settles { s with refs := s.refs.erase ref } s.inFlight (c :: held) grip :=
  h.withBooks ⟨rfl, rfl, rfl, rfl, rfl⟩ rfl (h.balanced.unnameRef hname)

theorem Consistent.closeRef (h : s.Consistent s.inFlight held grip) (hrespond : Sound respond)
    {ref : String} {c : ClientId} (hname : s.refs[ref]? = some c) :
    s.Settles (({ s with refs := s.refs.erase ref } : Session κ).dropRef respond c)
        s.inFlight held grip ∧
      (({ s with refs := s.refs.erase ref } : Session κ).dropRef respond c).Cleared := by
  have hunnamed := h.unnameRef hname
  obtain ⟨hdropped, hcleared⟩ := hunnamed.own.dropRef hrespond
  exact ⟨hunnamed.andThen hdropped, hcleared⟩

/-- What changes values and handles alone leaves no entry where there was none. -/
theorem SameHolders.cleared (h : s.SameHolders s') (hcleared : s.Cleared) : s'.Cleared := by
  intro hdeserted
  rw [deserted, h.present_eq, h.clients_eq, h.inFlight_eq] at hdeserted
  rw [h.cache_eq]
  exact hcleared hdeserted

/-- A handle to a value that is there gets a name, or is dropped when there is none. -/
theorem Consistent.copyHandle (h : s.Consistent s.inFlight held grip) {v : ValueId}
    (hv : 0 < s.namesOf v + s.cache.entries.carriers v + grip.count v) (into : Option String) :
    s.Settles ((s.addHandle v).placeHandle v into) s.inFlight held grip ∧
      (s.Cleared → ((s.addHandle v).placeHandle v into).Cleared) := by
  have hadded : s.Settles (s.addHandle v) s.inFlight held (v :: grip) :=
    h.withBooks ⟨rfl, rfl, rfl, rfl, rfl⟩ rfl (h.balanced.addHandle hv)
  have hsame : s.SameHolders (s.addHandle v) := ⟨⟨rfl, rfl, rfl, rfl, rfl⟩, rfl, rfl⟩
  exact ⟨hadded.andThen (hadded.own.placeHandle into),
    (hsame.trans ((s.addHandle v).sameHolders_placeHandle v into)).cleared⟩

theorem Consistent.newValue (h : s.Consistent s.inFlight held grip) (value : NewValue)
    (into : Option String) :
    s.Settles ((s.createValue value).2.placeHandle (s.createValue value).1 into)
        s.inFlight held grip ∧
      (s.Cleared → ((s.createValue value).2.placeHandle (s.createValue value).1 into).Cleared) := by
  have hcreated : s.Settles (s.createValue value).2 s.inFlight held
      ((s.createValue value).1 :: grip) :=
    h.withBooks ⟨rfl, rfl, rfl, rfl, rfl⟩ rfl (h.balanced.createValue value)
  have hsame : s.SameHolders (s.createValue value).2 := ⟨⟨rfl, rfl, rfl, rfl, rfl⟩, rfl, rfl⟩
  exact ⟨hcreated.andThen (hcreated.own.placeHandle into),
    (hsame.trans (sameHolders_placeHandle _ _ into)).cleared⟩

theorem Consistent.closeHandle (h : s.Consistent s.inFlight held grip) {handle : String}
    {v : ValueId} (hname : s.handles[handle]? = some v) :
    s.Settles (({ s with handles := s.handles.erase handle } : Session κ).dropHandle v)
        s.inFlight held grip ∧
      (s.Cleared →
        (({ s with handles := s.handles.erase handle } : Session κ).dropHandle v).Cleared) := by
  have hunnamed : s.Settles { s with handles := s.handles.erase handle } s.inFlight held
      (v :: grip) :=
    h.withBooks ⟨rfl, rfl, rfl, rfl, rfl⟩ rfl (h.balanced.unnameHandle hname)
  have hsame : s.SameHolders { s with handles := s.handles.erase handle } :=
    ⟨⟨rfl, rfl, rfl, rfl, rfl⟩, rfl, rfl⟩
  exact ⟨hunnamed.andThen hunnamed.own.dropHandle,
    (hsame.trans (sameHolders_dropHandle _ v)).cleared⟩

/-! ## All requests -/

/-- A request takes a consistent session to a consistent one. -/
theorem Consistent.performWith (h : s.Consistent s.inFlight held grip) (hrespond : Sound respond)
    {r : Request κ} (hr : r.KeyDetermined) :
    s.Settles (performWith respond s r).1 s.inFlight held grip ∧
      (s.Cleared → (performWith respond s r).1.Cleared) := by
  cases r with
  | put k value observer into =>
    exact h.withCache fun _ => h.put hrespond k value observer into
  | store k handle observer into =>
    exact h.withCache fun _ => h.store hrespond k handle observer into
  | get k into => exact h.withCache fun _ => h.get hrespond k into
  | probe k => exact h.withCache fun _ => h.probe hrespond k
  | reuse k into => exact h.withCache fun _ => h.reuse hrespond k into
  | removeAll p => exact h.withCache fun _ => h.removeAll hrespond hr
  | clear => exact h.withCache fun _ => h.clear hrespond
  | trim pressure => exact h.withCache fun _ => h.trim hrespond pressure
  -- the others are requests of references and handles, which go on without the cache
  | copyRef ref into =>
    rw [Session.performWith]
    split
    · -- a name that nobody holds: nothing happens
      exact ⟨h.settles, id⟩
    · rename_i c hname
      exact h.copyRef hrespond hname into
  | closeRef ref =>
    rw [Session.performWith]
    split
    · exact ⟨h.settles, id⟩
    · rename_i c hname
      -- closing may be what the cache has been waiting for to be torn down
      obtain ⟨hsettles, hcleared⟩ := h.closeRef hrespond hname
      exact ⟨hsettles, fun _ => hcleared⟩
  | valueOf ref into =>
    rw [Session.performWith]
    split
    · exact ⟨h.settles, id⟩
    · rename_i seen hseen
      -- the reference leads to an entry, which carries its value
      obtain ⟨c, _, hbind⟩ := Option.bind_eq_some_iff.1 hseen
      obtain ⟨client, _, hbind⟩ := Option.bind_eq_some_iff.1 hbind
      obtain ⟨e, he, hview⟩ := Option.bind_eq_some_iff.1 hbind
      obtain ⟨value, _, rfl⟩ := Option.map_eq_some_iff.1 hview
      have hpos := EntryTable.carriers_pos he
      exact h.copyHandle (by dsimp only; omega) into
  | newValue value into => exact h.newValue value into
  | copyHandle handle into =>
    rw [Session.performWith]
    split
    · exact ⟨h.settles, id⟩
    · rename_i v hname
      -- a handle that has a name is a handle to a value that is there
      have hpos := namesOf_pos hname
      exact h.copyHandle (by omega) into
  | closeHandle handle =>
    rw [Session.performWith]
    split
    · exact ⟨h.settles, id⟩
    · rename_i v hname
      exact h.closeHandle hname

/-- However deep requests are nested in each other, they keep a session consistent. -/
theorem sound_performNested (depth : Nat) : Sound (performNested depth : Responder κ) := by
  induction depth with
  | zero =>
    intro s r held grip hr h
    exact (h.performWith (fun _ _ _ _ _ h => h.settles) hr).1
  | succ depth ih =>
    intro s r held grip hr h
    exact (h.performWith ih hr).1

theorem Consistent.perform (h : s.Consistent s.inFlight held grip)
    {r : Request κ} (hr : r.KeyDetermined) :
    s.Settles (s.perform r).1 s.inFlight held grip ∧ (s.Cleared → (s.perform r).1.Cleared) := by
  unfold Session.perform
  cases s.reactions.length with
  | zero => exact h.performWith (fun _ _ _ _ _ h => h.settles) hr
  | succ depth => exact h.performWith (sound_performNested depth) hr

end Session

end RefCache
