import RefCache.Proofs.Stack.Beside

/-!
# The same request in both sessions

A modest request keeps two sessions side by side (`Beside.perform`). Only a `get` can be answered in one
session and not in the other one, and then only by the longer queue: the entry that is found there goes to its
end, as soon as the reference is dropped, and the shorter queue does not hold it.
-/

namespace RefCache

universe u

variable {κ : Type u}

/-- Values are cached, with the references held as long as wanted, but what is found is let go of at once, and
nothing is given back by hand. -/
def Request.Modest : Request κ → Prop
  | .put .. | .store .. | .probe _ | .clear | .closeRef _ | .newValue .. | .copyHandle ..
  | .closeHandle _ => True
  | .get _ into | .reuse _ into => into = none
  | .removeAll p => p.KeyDetermined
  | .trim _ | .copyRef .. | .valueOf .. => False

variable [Key κ]

namespace Session

variable {n m : Nat} {s s' : Session κ} {respond : Responder κ} {held held' : List ClientId}
  {grip : List ValueId} {k : κ} {id : EntryId}

theorem subsides_afterReading (s : Session κ) : s.Subsides s.afterReading :=
  { Subsides.refl s with }

/-- What was written stays written. -/
theorem Leads.written_le (h : s.Leads s') (howned : s.cache.Owned) :
    s.cache.counters.bytesWritten.number ≤ s'.cache.counters.bytesWritten.number := by
  obtain ⟨ops, _, htrace, _⟩ := h.trace
  exact htrace.written_le howned

/-! ## One session -/

/-- A request that is answered, until the reference is dropped: the entry has a new client. -/
theorem Consistent.answered (h : s.Consistent s.inFlight held grip) (hm : s.Modest n)
    (hget : s.cache.cached.get? k = some id) :
    (s.afterReading.addClient id).2.Prepared (.get s.surroundings k) (s.clients.next :: held) grip ∧
      (s.afterReading.addClient id).2.Modest n ∧ s.Alike (s.afterReading.addClient id).2 := by
  have hfound : (s.cache.get s.surroundings k).1 = some id := (Cache.get_fst _ _ _).trans hget
  refine ⟨h.prepared_answered hfound, (s.subsides_afterReading.modest hm).addClient id, ?_⟩
  exact (h.alike_addClient id).trans (subsides_afterReading _).alike

/-- An entry that is found, and let go of at once, has only come to the end of the queue. -/
theorem Consistent.refreshes (h : s.Consistent s.inFlight held grip) (hm : s.Modest n)
    (haccountable : s.cache.Accountable) (hrespond : Sound respond) {size : Nat}
    (hrow : (k, ⟨id, size⟩) ∈ s.cache.policy.items) :
    ∃ c : Cache κ, Cache.Refreshes k s.cache c ∧ c.Forgets (s.get respond k none).1.cache ∧
      s.Alike (s.get respond k none).1 ∧ (s.get respond k none).1.Modest n ∧
      (s.get respond k none).1.cache.Accountable := by
  have hget : s.cache.cached.get? k = some id :=
    (s.cache.cached.get?_eq_some_iff k id).2 ⟨size, h.owned.cached_of_item hrow⟩
  obtain ⟨hop, hmodest, halike⟩ := h.answered hm hget
  have hmeasurable := hop.ready.measurable haccountable trivial
  have hfits := (hmodest.plain hop).fitting hmeasurable
  -- the entry gets a client
  obtain ⟨t, ht⟩ : ∃ t, (s.afterReading.addClient id).2.finish respond (.get s.surroundings k)
    (s.cache.apply (.get s.surroundings k)) = t := ⟨_, rfl⟩
  have hs : ((s.afterReading.addClient id).2.adopt (.get s.surroundings k)
      (s.cache.apply (.get s.surroundings k))).Subsides t := ht ▸ hop.subsides respond hmodest.silent
  have hfinished : t.Consistent t.inFlight (s.clients.next :: held) grip :=
    ht ▸ (hop.finish hrespond).own
  have hmodest₁ : t.Modest n := hs.modest (hmodest.adopt hfits)
  have haccountable₁ : t.cache.Accountable := (hop.ready.accountable_after hmeasurable).forget hs.forgets
  have halike₁ : s.Alike t := halike.trans ((alike_adopt _ _ _).trans hs.alike)
  -- and the client is gone again
  obtain ⟨hop₂, hs₂⟩ := hfinished.subsides_dropRef hmodest₁ hrespond (entry_of_added hs.clients_eq)
  have hmodest₂ := hmodest₁.parting s.clients.next id
  have hmeasurable₂ := hop₂.ready.measurable haccountable₁ trivial
  have hfits₂ := (hmodest₂.plain hop₂).fitting hmeasurable₂
  have halike₂ := (hfinished.alike_parting hmodest₁ (entry_of_added hs.clients_eq)).trans
    ((alike_adopt _ _ _).trans hs₂.alike)
  rw [fst_get_of_found ((Cache.get_fst _ _ _).trans hget), ht]
  exact ⟨_, Cache.refreshes_of_hit hfits hrow hs.forgets hfits₂, hs₂.forgets, halike₁.trans halike₂,
    hs₂.modest (hmodest₂.adopt hfits₂), (hop₂.ready.accountable_after hmeasurable₂).forget hs₂.forgets⟩

/-- What comes of an attempt to take a value back, when its handle is dropped at once. -/
theorem Consistent.subsides_reuse (h : s.Consistent s.inFlight held grip) (hm : s.Modest n)
    (respond : Responder κ) (k : κ) :
    (s.adopt (.reuse k) (s.cache.apply (.reuse k))).Subsides (s.reuse respond k none).1 := by
  have hself : s.Prepared (.reuse k) held grip := h.prepared_self trivial trivial rfl rfl
  unfold Session.reuse
  dsimp only
  split
  · exact hself.subsides respond hm.silent
  · rename_i e hfound
    have hop := h.prepared_takenOut hfound
    have hadded : (s.adopt (.reuse k) (s.cache.apply (.reuse k))).Subsides
        ((s.addHandle e.value).adopt (.reuse k) (s.cache.apply (.reuse k))) :=
      subsides_addHandle _ e.value
    exact hadded.trans ((hop.subsides respond hm.silent).trans (subsides_dropHandle _ e.value))

namespace Beside

/-! ## Both sessions -/

/-- An operation whose consequences are no one's business. -/
theorem operate (h : Beside n m s s' held held' grip) (op : Operation κ) {t t' : Session κ} {w : Surroundings}
    (hop : s.Prepared op held grip) (hop' : s'.Prepared (op.under w) held' grip)
    (htakes : (op.under w).TakesNothingIn) (htrims : op.TrimsNothing)
    (hfound : ∀ s₀ k, op = .get s₀ k → s'.cache.cached.get? k = s.cache.cached.get? k)
    (hs : (s.adopt op (s.cache.apply op)).Subsides t)
    (hs' : (s'.adopt (op.under w) (s'.cache.apply (op.under w))).Subsides t')
    (ht : t.Consistent t.inFlight held grip) (ht' : t'.Consistent t'.inFlight held' grip) :
    Beside n m t t' held held' grip :=
  (adopt op h.toAbreast hop hop' (hop'.ready.measurable h.accountable htakes) htrims hfound).subside hs hs' ht ht'

/-- The clock is read in both sessions. -/
theorem afterReading (h : Beside n m s s' held held' grip) :
    Beside n m s.afterReading s'.afterReading held held' grip :=
  h.subside s.subsides_afterReading s'.subsides_afterReading
    (h.consistent.rebook h.consistent.balanced.afterReading ⟨rfl, rfl, rfl, rfl, rfl⟩ rfl)
    (h.consistent'.rebook h.consistent'.balanced.afterReading ⟨rfl, rfl, rfl, rfl, rfl⟩ rfl)

/-- What came of caching a value gets the same name in both sessions. -/
theorem placeStored {found found' : Option ClientId}
    (h : Beside n m s s' (found.toList ++ held) (found'.toList ++ held') grip) (hrespond : Sound respond)
    (hsame : SameEntry s s' found found') (into : Option String) :
    Beside n m (s.placeStored respond found into).1 (s'.placeStored respond found' into).1 held held'
      grip := by
  cases hsame with
  | neither => exact h
  | both hid hid' => exact h.placeRef hrespond hid hid' into

theorem put (h : Beside n m s s' held held' grip) (hrespond : Sound respond) (k : κ) (nv : NewValue)
    (observer into : Option String) (hroom : s'.cache.count < unlimited)
    (hwritten : (s'.put respond k nv observer into).1.cache.counters.bytesWritten.number ≤ unlimited) :
    Beside n m (s.put respond k nv observer into).1 (s'.put respond k nv observer into).1 held held'
      grip := by
  have hcreated := h.createValue nv
  unfold Session.put at hwritten ⊢
  dsimp only at hwritten ⊢
  rw [show (s.createValue nv).1 = s.values.next from rfl] at ⊢
  rw [show (s'.createValue nv).1 = s.values.next from h.nextValue_eq] at hwritten ⊢
  -- the value has the name that the caller holds
  have hpos : ∀ t : Session κ, 0 < t.namesOf s.values.next + t.cache.entries.carriers s.values.next
      + (s.values.next :: grip).count s.values.next := by
    intro t
    rw [List.count_cons_self]
    omega
  -- what is written when the value is cached stays written
  have hstored' := hcreated.consistent'.storeValue hrespond k (hpos _) observer
  have hdropped' := hstored'.own.dropHandle
  have hplaced' := hdropped'.own.placeStored hrespond into
  have hle := (hdropped'.andThen hplaced').leads.written_le hstored'.own.owned
  obtain ⟨hstored, hsame⟩ := hcreated.storeValue hrespond k (hpos _) (hpos _) observer hroom
    (Nat.le_trans hle hwritten)
  exact hstored.dropHandle.placeStored hrespond
    (hsame.congr (subsides_dropHandle _ _).clients_eq (subsides_dropHandle _ _).clients_eq) into

theorem store (h : Beside n m s s' held held' grip) (hrespond : Sound respond) (k : κ) (handle : String)
    (observer into : Option String) (hroom : s'.cache.count < unlimited)
    (hwritten : (s'.store respond k handle observer into).1.cache.counters.bytesWritten.number ≤ unlimited) :
    Beside n m (s.store respond k handle observer into).1 (s'.store respond k handle observer into).1
      held held' grip := by
  have hsame := h.alike.handles handle
  unfold Session.store at hwritten ⊢
  cases hname : s.handles[handle]? with
  | none =>
    rw [hname] at hsame
    rw [hsame]
    exact h
  | some v =>
    rw [hname] at hsame
    rw [hsame] at hwritten ⊢
    dsimp only at hwritten ⊢
    have hpos := namesOf_pos hname
    have hpos' := namesOf_pos hsame
    -- what is written by the end bounds what is written when the value is cached
    have hstored' := h.consistent'.storeValue hrespond k (v := v) (by omega) observer
    have hplaced' := hstored'.own.placeStored hrespond into
    have hle := hplaced'.leads.written_le hstored'.own.owned
    obtain ⟨hstored, hentry⟩ := h.storeValue hrespond k (v := v) (by omega) (by omega) observer hroom
      (Nat.le_trans hle hwritten)
    exact hstored.placeStored hrespond hentry into

/-- Both sessions find the same entry, and let go of it. -/
theorem get_of_found (h : Beside n m s s' held held' grip) (hrespond : Sound respond)
    (hget : s.cache.cached.get? k = some id) :
    Beside n m (s.get respond k none).1 (s'.get respond k none).1 held held' grip := by
  -- what the shorter queue leads to, the longer one does too
  have hget' := h.stacked.get?_eq h.consistent.owned h.consistent'.owned hget
  obtain ⟨hop, hmodest, halike⟩ := h.consistent.answered h.modest hget
  obtain ⟨hop', hmodest', halike'⟩ := h.consistent'.answered h.modest' hget'
  have hs := hop.subsides respond hmodest.silent
  have hs' := hop'.subsides respond hmodest'.silent
  have hadopted := adopt (.get s.surroundings k)
    ⟨hmodest, hmodest', h.stacked, halike.symm.trans (h.alike.trans halike')⟩ hop hop'
    (hop'.ready.measurable h.accountable trivial) trivial fun s₀ k₀ heq => by
      cases heq
      exact hget'.trans hget.symm
  have hfinished := hadopted.subside hs hs' (hop.finish hrespond).own (hop'.finish hrespond).own
  rw [fst_get_of_found ((Cache.get_fst _ _ _).trans hget), fst_get_of_found ((Cache.get_fst _ _ _).trans hget')]
  exact hfinished.dropRef hrespond (entry_of_added hs.clients_eq) (entry_of_added hs'.clients_eq)

/-- Neither session finds anything. -/
theorem get_of_missed (h : Beside n m s s' held held' grip) (hrespond : Sound respond)
    (hget : s.cache.cached.get? k = none) (hget' : s'.cache.cached.get? k = none) :
    Beside n m (s.get respond k none).1 (s'.get respond k none).1 held held' grip := by
  have hop := h.consistent.prepared_missed ((Cache.get_fst _ s.surroundings _).trans hget)
  have hop' := h.consistent'.prepared_missed ((Cache.get_fst _ s'.surroundings _).trans hget')
  rw [fst_get_of_missed ((Cache.get_fst _ _ _).trans hget), fst_get_of_missed ((Cache.get_fst _ _ _).trans hget')]
  exact h.afterReading.operate (.get s.surroundings k) hop hop' trivial trivial
    (fun s₀ k₀ heq => by cases heq; exact hget'.trans hget.symm) (hop.subsides respond h.modest.silent)
    (hop'.subsides respond h.modest'.silent) (hop.finish hrespond).own (hop'.finish hrespond).own

/-- The longer queue alone answers, and the entry that it finds comes to its end. -/
theorem get_of_found_beyond (h : Beside n m s s' held held' grip) (hrespond : Sound respond)
    (hget : s.cache.cached.get? k = none) (hget' : s'.cache.cached.get? k = some id) :
    Beside n m (s.get respond k none).1 (s'.get respond k none).1 held held' grip := by
  -- the shorter queue goes through a plain miss
  have hop := h.consistent.prepared_missed ((Cache.get_fst _ s.surroundings _).trans hget)
  have hop' := (h.consistent'.answered h.modest' hget').1
  have hs := hop.subsides respond h.modest.silent
  have hmodest := s.subsides_afterReading.modest h.modest
  -- the longer one finds an entry there without clients, hands it out and takes it back
  obtain ⟨size, hrow⟩ := h.stacked.mem_items_of_missed h.consistent'.owned hget hget'
  obtain ⟨c', hrefreshes', hforgets', halike', hmodest', haccountable'⟩ :=
    h.consistent'.refreshes h.modest' h.accountable hrespond hrow
  -- the table of the shorter one is no larger, so its numbers fit as well
  have hfits' := (((s'.subsides_afterReading.modest h.modest').addClient id).plain hop').fitting
    (hop'.ready.measurable h.accountable trivial)
  have hfits : (⟨s.cache, .get s.surroundings k⟩ : Asked κ).Fitting n :=
    h.stacked.fitting (hmodest.plain hop) (w := s'.surroundings) hfits'
  have hrefreshes := Cache.refreshes_of_missed hfits hget
  have hdone' := (h.consistent'.get hrespond k none).own
  have hread : s.Alike s.afterReading := s.subsides_afterReading.alike
  rw [fst_get_of_missed ((Cache.get_fst _ _ _).trans hget)]
  exact
    { modest := hs.modest (hmodest.adopt hfits)
      modest' := hmodest'
      stacked := (h.stacked.refresh hrefreshes hrefreshes').forget hs.forgets hforgets'
      alike := (hread.trans ((alike_adopt _ _ _).trans hs.alike)).symm.trans (h.alike.trans halike')
      consistent := (hop.finish hrespond).own
      consistent' := hdone'
      accountable := haccountable' }

/-- A request whose reference is dropped at once. -/
theorem get (h : Beside n m s s' held held' grip) (hrespond : Sound respond) (k : κ) :
    Beside n m (s.get respond k none).1 (s'.get respond k none).1 held held' grip := by
  cases hget : s.cache.cached.get? k with
  | some id => exact h.get_of_found hrespond hget
  | none =>
    cases hget' : s'.cache.cached.get? k with
    | some id => exact h.get_of_found_beyond hrespond hget hget'
    | none => exact h.get_of_missed hrespond hget hget'

/-- A request that is about keys, and needs no books. -/
theorem probe (h : Beside n m s s' held held' grip) (hrespond : Sound respond) (k : κ) :
    Beside n m (s.finish respond (.probe k) (s.cache.probe k))
      (s'.finish respond (.probe k) (s'.cache.probe k)) held held' grip := by
  have hop : s.Prepared (.probe k) held grip := h.consistent.prepared_self trivial trivial rfl rfl
  have hop' : s'.Prepared (.probe k) held' grip := h.consistent'.prepared_self trivial trivial rfl rfl
  exact h.operate (.probe k) (w := s'.surroundings) hop hop' trivial trivial
    (fun _ _ heq => nomatch heq) (hop.subsides respond h.modest.silent) (hop'.subsides respond h.modest'.silent)
    (h.consistent.probe hrespond k).own (h.consistent'.probe hrespond k).own

theorem reuse (h : Beside n m s s' held held' grip) (hrespond : Sound respond) (k : κ) :
    Beside n m (s.reuse respond k none).1 (s'.reuse respond k none).1 held held' grip := by
  have hop : s.Prepared (.reuse k) held grip := h.consistent.prepared_self trivial trivial rfl rfl
  have hop' : s'.Prepared (.reuse k) held' grip := h.consistent'.prepared_self trivial trivial rfl rfl
  exact h.operate (.reuse k) (w := s'.surroundings) hop hop' trivial trivial
    (fun _ _ heq => nomatch heq) (h.consistent.subsides_reuse h.modest respond k)
    (h.consistent'.subsides_reuse h.modest' respond k) (h.consistent.reuse hrespond k none).own
    (h.consistent'.reuse hrespond k none).own

theorem removeAll (h : Beside n m s s' held held' grip) (hrespond : Sound respond) {p : Predicate κ}
    (hp : p.KeyDetermined) :
    Beside n m (s.removeAll respond p).1 (s'.removeAll respond p).1 held held' grip := by
  have hop := h.consistent.prepared_removeAll hp
  have hop' := h.consistent'.prepared_removeAll hp
  exact h.afterReading.operate (.removeAll s.surroundings p) hop hop' trivial trivial
    (fun _ _ heq => nomatch heq) (hop.subsides respond h.modest.silent) (hop'.subsides respond h.modest'.silent)
    (h.consistent.removeAll hrespond hp).own (h.consistent'.removeAll hrespond hp).own

theorem clear (h : Beside n m s s' held held' grip) (hrespond : Sound respond) :
    Beside n m
      (s.afterReading.finish respond (.clear s.surroundings) (s.cache.apply (.clear s.surroundings)))
      (s'.afterReading.finish respond (.clear s'.surroundings) (s'.cache.apply (.clear s'.surroundings)))
      held held' grip := by
  have hop := h.consistent.prepared_clear
  have hop' := h.consistent'.prepared_clear
  exact h.afterReading.operate (.clear s.surroundings) hop hop' trivial trivial
    (fun _ _ heq => nomatch heq) (hop.subsides respond h.modest.silent) (hop'.subsides respond h.modest'.silent)
    (h.consistent.clear hrespond).own (h.consistent'.clear hrespond).own

/-! ## All requests -/

/-- A modest request keeps the sessions side by side. -/
theorem performWith (h : Beside n m s s' held held' grip) (hrespond : Sound respond) {r : Request κ}
    (hr : r.Modest) (hroom : s'.cache.count < unlimited)
    (hwritten : (Session.performWith respond s' r).1.cache.counters.bytesWritten.number ≤ unlimited) :
    Beside n m (Session.performWith respond s r).1 (Session.performWith respond s' r).1 held held'
      grip := by
  -- the names are shared between the sessions, so that each request means the same to both
  have hpresent := h.modest.present
  have hpresent' := h.modest'.present
  cases r with
  | put k nv observer into =>
    simp only [Session.performWith, withCache, hpresent, hpresent', if_true] at hwritten ⊢
    exact h.put hrespond k nv observer into hroom hwritten
  | store k handle observer into =>
    simp only [Session.performWith, withCache, hpresent, hpresent', if_true] at hwritten ⊢
    exact h.store hrespond k handle observer into hroom hwritten
  | get k into =>
    obtain rfl : into = none := hr
    simp only [Session.performWith, withCache, hpresent, hpresent', if_true]
    exact h.get hrespond k
  | probe k =>
    simp only [Session.performWith, withCache, hpresent, hpresent', if_true]
    exact h.probe hrespond k
  | reuse k into =>
    obtain rfl : into = none := hr
    simp only [Session.performWith, withCache, hpresent, hpresent', if_true]
    exact h.reuse hrespond k
  | removeAll p =>
    simp only [Session.performWith, withCache, hpresent, hpresent', if_true]
    exact h.removeAll hrespond hr
  | clear =>
    simp only [Session.performWith, withCache, hpresent, hpresent', if_true]
    exact h.clear hrespond
  | closeRef ref =>
    have hsame := h.sameEntry_refs ref
    simp only [Session.performWith]
    -- the reference has its name in both sessions or in neither
    cases hname : s.refs[ref]? with
    | none =>
      rw [hname] at hsame
      cases hname' : s'.refs[ref]? with
      | none => exact h
      | some c' =>
        rw [hname'] at hsame
        cases hsame
    | some c =>
      rw [hname] at hsame
      cases hname' : s'.refs[ref]? with
      | none =>
        rw [hname'] at hsame
        cases hsame
      | some c' =>
        rw [hname'] at hsame
        cases hsame with
        | both hid hid' => exact (h.unnameRef hname hname').dropRef hrespond hid hid'
  | newValue nv into =>
    have hnext : (s'.createValue nv).1 = (s.createValue nv).1 := h.nextValue_eq
    simp only [Session.performWith]
    rw [hnext]
    exact (h.createValue nv).placeHandle into
  -- the handles are the same in both sessions
  | copyHandle handle into =>
    have hsame := h.alike.handles handle
    simp only [Session.performWith]
    cases hname : s.handles[handle]? with
    | none =>
      rw [hname] at hsame
      rw [hsame]
      exact h
    | some v =>
      rw [hname] at hsame
      rw [hsame]
      have hpos := namesOf_pos hname
      have hpos' := namesOf_pos hsame
      exact (h.addHandle (by omega) (by omega)).placeHandle into
  | closeHandle handle =>
    have hsame := h.alike.handles handle
    simp only [Session.performWith]
    cases hname : s.handles[handle]? with
    | none =>
      rw [hname] at hsame
      rw [hsame]
      exact h
    | some v =>
      rw [hname] at hsame
      rw [hsame]
      exact (h.unnameHandle hname).dropHandle
  | _ => exact hr.elim

end Beside

end Session

end RefCache
