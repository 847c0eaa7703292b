import RefCache.Proofs.Session.Passing
import RefCache.Proofs.Session.Reachable

/-!
# Sessions unfold

Whatever a session is asked, and whatever observers ask in return, it comes to its end by way of
incidents (`Session.Unfolds`): every operation takes over the cache that the one before has left, and
what observers ask for comes between the notice and the end of their callback.

Each of these operations comes to its end on the way, and what has happened until then stays on record
(`Session.Reaches`).

* `Prepared.unfolds`: an operation with all its consequences
* `Consistent.unfolds_performWith`: a request
* `AtRest.reaches_runAll`: many steps
-/

namespace RefCache

universe u

variable {κ : Type u} [Key κ]

namespace Session

/-- The session that an operation leaves when all observers have been told, before the entries that were kept
for that are let go. -/
def heardOut (respond : Responder κ) (m : Session κ) (op : Operation κ) : Session κ :=
  (m.cache.apply op).notices.foldl (tell respond) (m.adopt op (m.cache.apply op))

/-- What becomes of a request that an observer makes: nothing, or it is performed, with others nested in it. -/
inductive Responds : Responder κ → Prop where
  | passive : Responds fun s _ => (s, .done)
  | nested (depth : Nat) : Responds (performNested depth)

/-- An operation is performed with all its consequences, and those are on record in a later session. -/
def FinishesBy (m : Session κ) (op : Operation κ) (s' : Session κ) : Prop :=
  ∃ respond : Responder κ, Responds respond ∧
    (∃ log, (m.adopt op (m.cache.apply op)).Unfolds (m.cache.apply op).errands log (heardOut respond m op)) ∧
    (m.finish respond op (m.cache.apply op)).events <:+ s'.events

/-- The session comes to the other one by way of the incidents. What happens goes on record, and every
operation comes to its end. -/
structure Reaches (s : Session κ) (errands : List Errand) (log : List (Incident κ)) (s' : Session κ) :
    Prop where
  unfolds : s.Unfolds errands log s'
  events : s.events <:+ s'.events
  finishes : ∀ (m : Session κ) op, ⟨m, .asked op⟩ ∈ log → m.FinishesBy op s'

/-- The session comes to the other one by way of incidents. -/
def UnfoldsTo (s s' : Session κ) : Prop :=
  ∃ log, s.Reaches [] log s'

end Session

/-- Requests keep a session consistent, and it gets where they lead by way of incidents. -/
structure Unfolding (respond : Responder κ) : Prop where
  responds : Session.Responds respond
  unfolds : ∀ (s : Session κ) (r : Request κ) (held : List ClientId) (grip : List ValueId),
    r.KeyDetermined → s.Consistent s.inFlight held grip → s.UnfoldsTo (respond s r).1

namespace Session

variable {s s' s'' s₁ : Session κ} {respond : Responder κ} {held held' : List ClientId}
  {grip grip' : List ValueId} {errands : List Errand} {log log' : List (Incident κ)}

theorem Responds.sound (h : Responds respond) : Sound respond := by
  cases h with
  | passive => exact fun _ _ _ _ _ h => h.settles
  | nested depth => exact sound_performNested depth

/-- What goes on later changes nothing of what is on record. -/
theorem Reaches.later (h : s.Reaches errands log s') (hevents : s'.events <:+ s''.events) (m : Session κ)
    (op : Operation κ) (hm : (⟨m, .asked op⟩ : Incident κ) ∈ log) : m.FinishesBy op s'' := by
  obtain ⟨respond, hrespond, htold, hfinish⟩ := h.finishes m op hm
  exact ⟨respond, hrespond, htold, hfinish.trans hevents⟩

theorem Passes.unfoldsTo (h : s.Passes [] s') (hevents : s.events <:+ s'.events) : s.UnfoldsTo s' :=
  ⟨[], .of_passes h, hevents, fun _ _ hm => nomatch hm⟩

/-- Changes that go unseen. -/
theorem Passes.unseen (h : s.Passes [] s') (hevents : s'.events = s.events) : s.UnfoldsTo s' :=
  h.unfoldsTo (hevents ▸ List.suffix_refl _)

theorem UnfoldsTo.refl (s : Session κ) : s.UnfoldsTo s :=
  Passes.unseen (.refl s) rfl

theorem Reaches.trans (h : s.Reaches errands log s') (h' : s'.Reaches [] log' s'') :
    s.Reaches errands (log ++ log') s'' where
  unfolds := h.unfolds.trans h'.unfolds
  events := h.events.trans h'.events
  finishes := by
    intro m op hm
    rcases List.mem_append.1 hm with hm | hm
    · exact h.later h'.events m op hm
    · exact h'.finishes m op hm

theorem UnfoldsTo.trans (h : s.UnfoldsTo s') (h' : s'.UnfoldsTo s'') : s.UnfoldsTo s'' := by
  obtain ⟨log, hlog⟩ := h
  obtain ⟨log', hlog'⟩ := h'
  exact ⟨log ++ log', hlog.trans hlog'⟩

/-! ## Observers -/

theorem Consistent.unfolds_reactOnce (h : s.Consistent s.inFlight held grip)
    (hrespond : Unfolding respond) (k : κ) {q : Request κ} (hq : q.KeyDetermined) :
    s.UnfoldsTo (s.reactOnce respond k q) := by
  unfold Session.reactOnce
  split
  · exact .refl s
  · have hpasses := passes_record (respond s q).1 (e := .reacted k (respond s q).2) rfl
    exact (hrespond.unfolds s q held grip hq h).trans (hpasses.unfoldsTo (List.suffix_cons _ _))

theorem Consistent.unfolds_reactAll (h : s.Consistent s.inFlight held grip)
    (hrespond : Unfolding respond) (k : κ) (requests : List (Request κ))
    (hrequests : ∀ q ∈ requests, q.KeyDetermined) :
    s.UnfoldsTo (requests.foldl (Session.reactOnce respond k) s) := by
  induction requests generalizing s with
  | nil => exact .refl s
  | cons q rest ih =>
    have hq := hrequests q List.mem_cons_self
    have honce := h.reactOnce hrespond.responds.sound k hq
    exact (h.unfolds_reactOnce hrespond k hq).trans
      (ih honce.own fun q hq => hrequests q (List.mem_cons_of_mem _ hq))

theorem Consistent.unfolds_react (h : s.Consistent s.inFlight held grip)
    (hrespond : Unfolding respond) (k : κ) (exclusive : Bool) :
    s.UnfoldsTo (s.react respond k exclusive) := by
  unfold Session.react
  split
  · exact .refl s
  · rename_i reaction rest hfound
    obtain ⟨hreaction, hrest⟩ := mem_of_extractFirst hfound
    have husedUp : s.Passes [] { s with reactions := rest } :=
      { Passes.refl s with }
    exact (husedUp.unseen rfl).trans ((h.useUp hrest).unfolds_reactAll hrespond k reaction.requests
      (h.reactions reaction hreaction))

/-- An observer is told first, and then asks for something or not. -/
theorem Consistent.unfolds_answer (h : s.Consistent s.inFlight held grip)
    (hrespond : Unfolding respond) (n : Notice) :
    ∃ s₁, s.Passes (s.announced n) s₁ ∧ s.events <:+ s₁.events ∧ s₁.UnfoldsTo (s.tell respond n) := by
  unfold Session.tell
  split
  · rename_i hnone
    -- the entry is gone, so nobody is told
    have hannounced : s.announced n = [] := by simp [announced, hnone]
    exact ⟨s, hannounced ▸ .refl s, List.suffix_refl _, .refl s⟩
  · rename_i e he
    split
    · rename_i hobserver
      -- nobody watches the entry
      have hannounced : s.announced n = [] := by simp [announced, he, hobserver]
      exact ⟨s, hannounced ▸ .refl s, List.suffix_refl _, .refl s⟩
    · rename_i observer hobserver
      have hannounced : s.announced n = [n] := by simp [announced, he, hobserver]
      -- being told comes before any reaction, so it is the whole of what is heard
      have hrecorded := h.record
        (e := .told n.entry observer e.key n.exclusive (s.sight? e.key)) fun _ => rfl
      have hheard : s.Passes (s.announced n)
          (s.record (.told n.entry observer e.key n.exclusive (s.sight? e.key))) :=
        { Passes.refl s with told_eq := hannounced ▸ told_record s _ }
      exact ⟨_, hheard, List.suffix_cons _ _, hrecorded.own.unfolds_react hrespond e.key n.exclusive⟩

/-- Observers are told one after the other, while all that the operation let go is kept. -/
theorem Consistent.unfolds_tellAll (h : s.Consistent s.inFlight held grip)
    (hrespond : Unfolding respond) (detached : List EntryId) (notices : List Notice)
    (hkept : ∀ id ∈ notices.map Notice.entry ++ detached, id ∈ s.inFlight) :
    ∃ log, s.Reaches (notices.map (⟨·, detached⟩)) log (notices.foldl (Session.tell respond) s) := by
  induction notices generalizing s with
  | nil => exact UnfoldsTo.refl s
  | cons n rest ih =>
    -- the observer of `n` is told, with all that the operation let go still kept for it
    have htold := h.tell hrespond.responds.sound n
    have hkeeps : ∀ id ∈ Errand.keeps ⟨n, detached⟩, id ∈ s.inFlight := by
      intro id hid
      refine hkept id ?_
      rcases List.mem_cons.1 hid with rfl | hid
      · exact List.mem_append_left _ List.mem_cons_self
      · exact List.mem_append_right _ hid
    obtain ⟨s₁, hheard, hevents, log, hanswer⟩ := h.unfolds_answer hrespond n
    -- the rest is told when the observer of `n` has come back
    obtain ⟨log', hrest⟩ := ih htold.own fun id hid =>
      htold.inFlight_eq.symm ▸ hkept id (List.mem_cons_of_mem _ hid)
    refine ⟨_, .tell h hkeeps hheard hanswer.unfolds htold.own
      (fun id hid => htold.inFlight_eq.symm ▸ hkeeps id hid) hrest.unfolds,
      (hevents.trans hanswer.events).trans hrest.events, fun m op hm => ?_⟩
    -- the operation belongs to the answer, or to what follows it
    simp only [List.mem_cons, List.mem_append, Incident.mk.injEq, reduceCtorEq, and_false,
      false_or] at hm
    rcases hm with hm | hm
    · exact hanswer.later hrest.events m op hm
    · exact hrest.finishes m op hm

/-! ## Operations -/

/-- An operation with all its consequences. -/
theorem Prepared.unfolds {op : Operation κ} (h : s.Prepared op held grip)
    (hrespond : Unfolding respond) (hallowed : s.Allows op) :
    s.UnfoldsTo (s.finish respond op (s.cache.apply op)) := by
  have hadopted := h.adopt
  have htold := hadopted.own.tellAll hrespond.responds.sound (s.cache.apply op).notices
  obtain ⟨log, hdelivered⟩ := hadopted.own.unfolds_tellAll hrespond (s.cache.apply op).detached
    (s.cache.apply op).notices fun id hid => hadopted.inFlight_eq.symm ▸ List.mem_append_left _ hid
  have hletGo : (heardOut respond s op).events <:+ (s.finish respond op (s.cache.apply op)).events :=
    events_foldl events_letGo _ _
  refine ⟨_, .operate h hallowed hdelivered.unfolds (.of_passes (passes_letGoAll _ htold.own.owned)),
    hdelivered.events.trans hletGo, fun m op' hm => ?_⟩
  -- the operation is the one in question, or an observer has asked for it
  rw [List.append_nil] at hm
  rcases List.mem_cons.1 hm with heq | hm
  · cases heq
    exact ⟨respond, hrespond.responds, ⟨log, hdelivered.unfolds⟩, List.suffix_refl _⟩
  · exact hdelivered.later hletGo m op' hm

/-- An operation whose books are ready in `s₁`. -/
theorem Prepared.unfolds_operate {op : Operation κ} (h : s₁.Prepared op held grip)
    (hrespond : Unfolding respond) (hpasses : s.Passes [] s₁) (hevents : s₁.events = s.events)
    (hcache : s₁.cache = s.cache) (hallowed : s₁.Allows op) :
    s.UnfoldsTo (s₁.finish respond op (s.cache.apply op)) :=
  (hpasses.unseen hevents).trans (hcache ▸ h.unfolds hrespond hallowed)

/-! ## References -/

theorem Consistent.unfolds_dropRef {c : ClientId} (h : s.Consistent s.inFlight (c :: held) grip)
    (hrespond : Unfolding respond) : s.UnfoldsTo (s.dropRef respond c) := by
  obtain ⟨client, e, hclient, he, hclients⟩ := h.balanced.exists_client (c := c)
    (by rw [List.count_cons_self]; omega)
  by_cases hmore : 1 < client.copies
  · -- other copies are left, so the cache is asked nothing
    rw [dropRef_more hclient hmore]
    have hpasses : s.Passes []
        { s with clients := s.clients.update c fun c => { c with copies := c.copies - 1 } } :=
      Frame.passes ⟨rfl, rfl, rfl, rfl, rfl⟩ rfl (lasting_update _ _ fun _ => rfl) rfl
    exact hpasses.unseen rfl
  · have hlast := Nat.le_of_not_gt hmore
    -- the last copy: the client goes first, and the cache is asked to release its entry
    have hprepared := h.prepared_release hclient he hclients hlast
    have hfinished := hprepared.finish hrespond.responds.sound
    have hsettled := h.letGo_parting hrespond.responds.sound hclient he hclients hlast
    rw [dropRef_last hclient hlast]
    -- the entry is let go and, if that was the last reference, the cache with it
    have hreleased := ((s.passes_parting (c := c) he).unseen rfl).trans
      (hprepared.unfolds hrespond trivial)
    have hletGo := hreleased.trans
      ((passes_letGo hfinished.own.owned client.entry).unfoldsTo (events_letGo _ _))
    exact hletGo.trans (hsettled.own.passes_tearDownIfDeserted.unfoldsTo
      (events_tearDownIfDeserted _))

theorem passes_nameRef (s : Session κ) (name : String) (c : ClientId) :
    s.Passes [] { s with refs := s.refs.insert name c } :=
  Frame.passes ⟨rfl, rfl, rfl, rfl, rfl⟩ rfl (.refl _) rfl

theorem Consistent.unfolds_placeRef {c : ClientId} (h : s.Consistent s.inFlight (c :: held) grip)
    (hrespond : Unfolding respond) (into : Option String) :
    s.UnfoldsTo (s.placeRef respond c into) := by
  cases into with
  | none => exact h.unfolds_dropRef hrespond
  | some name =>
    -- the name is given first, so that reactions to the drop find it in place
    have hnamed := h.nameRef name
    have hpasses := s.passes_nameRef name c
    unfold Session.placeRef
    dsimp only
    cases hformer : s.refs[name]? with
    | none => exact hpasses.unseen rfl
    | some d =>
      rw [hformer] at hnamed
      exact (hpasses.unseen rfl).trans (hnamed.own.unfolds_dropRef hrespond)

/-! ## Requests that need the cache -/

theorem Consistent.unfolds_storeValue (h : s.Consistent s.inFlight held grip)
    (hrespond : Unfolding respond) (hpresent : s.present = true) (k : κ) {v : ValueId}
    (hv : 0 < s.namesOf v + s.cache.entries.carriers v + grip.count v) (observer : Option String) :
    s.UnfoldsTo (s.storeValue respond k v observer).2 := by
  unfold Session.storeValue
  dsimp only
  cases hfound : (s.cache.store s.surroundings k v (((s.values.get? v).map Value.size).getD 0)
      (observer.or s.defaultObserver)).1 with
  | none =>
    exact (h.prepared_rejected hfound).unfolds_operate hrespond s.passes_afterReading rfl rfl hpresent
  | some id =>
    have hpasses := (s.passes_afterReading.trans (passes_addHandle _ v)).trans (passes_addClient _ id)
    exact (h.prepared_stored hv rfl hfound).unfolds_operate hrespond hpasses rfl rfl hpresent

theorem Consistent.unfolds_placeStored {client : Option ClientId}
    (h : s.Consistent s.inFlight (client.toList ++ held) grip) (hrespond : Unfolding respond)
    (into : Option String) :
    s.UnfoldsTo (s.placeStored respond client into).1 := by
  cases client with
  | none => exact .refl s
  | some c => exact h.unfolds_placeRef hrespond into

theorem Consistent.unfolds_put (h : s.Consistent s.inFlight held grip)
    (hrespond : Unfolding respond) (hpresent : s.present = true) (k : κ) (value : NewValue)
    (observer into : Option String) : s.UnfoldsTo (s.put respond k value observer into).1 := by
  -- the value is there, with the handle that the operation holds, before the cache is asked
  have hcreated : s.Settles (s.createValue value).2 s.inFlight held
      ((s.createValue value).1 :: grip) :=
    h.withBooks ⟨rfl, rfl, rfl, rfl, rfl⟩ rfl (h.balanced.createValue value)
  have hv : 0 < (s.createValue value).2.namesOf (s.createValue value).1
      + (s.createValue value).2.cache.entries.carriers (s.createValue value).1
      + ((s.createValue value).1 :: grip).count (s.createValue value).1 := by
    rw [List.count_cons_self]
    omega
  -- the handle is dropped after the value has been offered, whether or not it was accepted
  have hstored := hcreated.own.storeValue hrespond.responds.sound k hv observer
  have hnow := (hcreated.andThen hstored).andThen hstored.own.dropHandle
  have hunfolds := hcreated.own.unfolds_storeValue hrespond hpresent k hv observer
  exact ((((s.passes_createValue value).unseen rfl).trans hunfolds).trans
    ((passes_dropHandle _ _).unfoldsTo (events_dropHandle _ _))).trans
      (hnow.own.unfolds_placeStored hrespond into)

theorem Consistent.unfolds_store (h : s.Consistent s.inFlight held grip)
    (hrespond : Unfolding respond) (hpresent : s.present = true) (k : κ) (handle : String)
    (observer into : Option String) : s.UnfoldsTo (s.store respond k handle observer into).1 := by
  unfold Session.store
  split
  · exact .refl s
  · rename_i v hname
    have hpos := namesOf_pos hname
    have hv : 0 < s.namesOf v + s.cache.entries.carriers v + grip.count v := by omega
    have hstored := h.storeValue hrespond.responds.sound k hv observer
    exact (h.unfolds_storeValue hrespond hpresent k hv observer).trans
      (hstored.own.unfolds_placeStored hrespond into)

theorem Consistent.unfolds_get (h : s.Consistent s.inFlight held grip)
    (hrespond : Unfolding respond) (hpresent : s.present = true) (k : κ) (into : Option String) :
    s.UnfoldsTo (s.get respond k into).1 := by
  unfold Session.get Session.handOver
  dsimp only
  cases hfound : (s.cache.get s.surroundings k).1 with
  | none =>
    exact (h.prepared_missed hfound).unfolds_operate hrespond s.passes_afterReading rfl rfl hpresent
  | some id =>
    have hprepared := h.prepared_answered hfound
    have hnow := hprepared.operate (s := s) hrespond.responds.sound ⟨rfl, rfl, rfl, rfl, rfl⟩ rfl
    have hanswered := hprepared.unfolds_operate hrespond
      (s.passes_afterReading.trans (passes_addClient _ id)) rfl rfl hpresent
    exact hanswered.trans (hnow.own.unfolds_placeRef hrespond into)

theorem Consistent.unfolds_reuse (h : s.Consistent s.inFlight held grip)
    (hrespond : Unfolding respond) (hpresent : s.present = true) (k : κ) (into : Option String) :
    s.UnfoldsTo (s.reuse respond k into).1 := by
  unfold Session.reuse
  dsimp only
  split
  · have hprepared : s.Prepared (.reuse k) held grip := h.prepared_self trivial trivial rfl rfl
    exact hprepared.unfolds hrespond hpresent
  · rename_i e hfound
    exact ((h.prepared_takenOut hfound).unfolds_operate hrespond (s.passes_addHandle e.value) rfl rfl
      hpresent).trans ((passes_placeHandle _ _ into).unfoldsTo (events_placeHandle _ _ into))

theorem Consistent.unfolds_trim (h : s.Consistent s.inFlight held grip)
    (hrespond : Unfolding respond) (hpresent : s.present = true) (pressure : Pressure) :
    s.UnfoldsTo (s.trim respond pressure) := by
  unfold Session.trim
  dsimp only
  split
  · exact (h.prepared_trim pressure _).unfolds_operate hrespond s.passes_afterReading rfl rfl hpresent
  · have hrecorded := h.record (e := .ratioAsked pressure) fun _ => rfl
    have hpasses : s.Passes [] (s.record (.ratioAsked pressure)) := s.passes_record rfl
    exact (hpasses.unfoldsTo (List.suffix_cons _ _)).trans
      ((hrecorded.own.prepared_trim pressure _).unfolds_operate hrespond (passes_afterReading _) rfl rfl
        hpresent)

/-- A request that the cache has to be there for. -/
theorem unfolds_withCache {go : Session κ → Session κ × Outcome κ}
    (hgo : s.present = true → s.UnfoldsTo (go s).1) : s.UnfoldsTo (s.withCache go).1 := by
  unfold Session.withCache
  split
  · exact hgo ‹_›
  · exact .refl s

/-! ## All requests -/

/-- One more handle gets a name. -/
theorem unfolds_copyHandle (s : Session κ) (v : ValueId) (into : Option String) :
    s.UnfoldsTo ((s.addHandle v).placeHandle v into) :=
  ((s.passes_addHandle v).unseen rfl).trans
    ((passes_placeHandle _ _ into).unfoldsTo (events_placeHandle _ _ into))

/-- A request. -/
theorem Consistent.unfolds_performWith (h : s.Consistent s.inFlight held grip)
    (hrespond : Unfolding respond) {r : Request κ} (hr : r.KeyDetermined) :
    s.UnfoldsTo (Session.performWith respond s r).1 := by
  cases r with
  -- requests of the cache, each of which is one operation or more
  | put k value observer into =>
    exact unfolds_withCache (h.unfolds_put hrespond · k value observer into)
  | store k handle observer into =>
    exact unfolds_withCache (h.unfolds_store hrespond · k handle observer into)
  | get k into => exact unfolds_withCache (h.unfolds_get hrespond · k into)
  | probe k =>
    have hprepared : s.Prepared (.probe k) held grip := h.prepared_self trivial trivial rfl rfl
    exact unfolds_withCache (hprepared.unfolds hrespond ·)
  | reuse k into => exact unfolds_withCache (h.unfolds_reuse hrespond · k into)
  | removeAll p =>
    exact unfolds_withCache
      ((h.prepared_removeAll hr).unfolds_operate hrespond s.passes_afterReading rfl rfl ·)
  | clear =>
    exact unfolds_withCache
      (h.prepared_clear.unfolds_operate hrespond s.passes_afterReading rfl rfl ·)
  | trim pressure => exact unfolds_withCache (h.unfolds_trim hrespond · pressure)
  -- requests of references: the books change, and a client may have to let go
  | copyRef ref into =>
    rw [Session.performWith]
    split
    · exact .refl s
    · rename_i c hname
      have hpasses : s.Passes []
          { s with clients := s.clients.update c fun c => { c with copies := c.copies + 1 } } :=
        Frame.passes ⟨rfl, rfl, rfl, rfl, rfl⟩ rfl (lasting_update _ _ fun _ => rfl) rfl
      have hcopied := h.oneMoreCopy hname
      exact (hpasses.unseen rfl).trans (hcopied.own.unfolds_placeRef hrespond into)
  | closeRef ref =>
    rw [Session.performWith]
    split
    · exact .refl s
    · rename_i c hname
      have hpasses : s.Passes [] { s with refs := s.refs.erase ref } :=
        Frame.passes ⟨rfl, rfl, rfl, rfl, rfl⟩ rfl (.refl _) rfl
      have hunnamed := h.unnameRef hname
      exact (hpasses.unseen rfl).trans (hunnamed.own.unfolds_dropRef hrespond)
  -- requests of handles: nothing but books
  | valueOf ref into =>
    rw [Session.performWith]
    split
    · exact .refl s
    · exact s.unfolds_copyHandle _ into
  | newValue value into =>
    exact ((s.passes_createValue value).unseen rfl).trans
      ((passes_placeHandle _ _ into).unfoldsTo (events_placeHandle _ _ into))
  | copyHandle handle into =>
    rw [Session.performWith]
    split
    · exact .refl s
    · exact s.unfolds_copyHandle _ into
  | closeHandle handle =>
    rw [Session.performWith]
    split
    · exact .refl s
    · have hpasses : s.Passes [] { s with handles := s.handles.erase handle } :=
        Frame.passes ⟨rfl, rfl, rfl, rfl, rfl⟩ rfl (.refl _) rfl
      exact (hpasses.unseen rfl).trans ((passes_dropHandle _ _).unfoldsTo (events_dropHandle _ _))

/-- Observers that ask for nothing. -/
theorem unfolding_passive : Unfolding (fun s _ => (s, .done) : Responder κ) where
  responds := .passive
  unfolds := fun s _ _ _ _ _ => .refl s

/-- However deep requests are nested in each other, they unfold. -/
theorem unfolding_performNested (depth : Nat) : Unfolding (performNested depth : Responder κ) := by
  refine ⟨.nested depth, ?_⟩
  induction depth with
  | zero =>
    intro s r held grip hr h
    exact h.unfolds_performWith unfolding_passive hr
  | succ depth ih =>
    intro s r held grip hr h
    exact h.unfolds_performWith ⟨.nested depth, ih⟩ hr

theorem Responds.unfolding (h : Responds respond) : Unfolding respond := by
  cases h with
  | passive => exact unfolding_passive
  | nested depth => exact unfolding_performNested depth

/-- However many reactions are still to come, a request is performed with a way to perform those of observers. -/
theorem exists_performWith (s : Session κ) :
    ∃ respond, Responds respond ∧ ∀ r, s.perform r = performWith respond s r := by
  unfold perform
  cases s.reactions.length with
  | zero => exact ⟨_, .passive, fun _ => rfl⟩
  | succ depth => exact ⟨_, .nested depth, fun _ => rfl⟩

theorem Consistent.unfolds_perform (h : s.Consistent s.inFlight held grip)
    {r : Request κ} (hr : r.KeyDetermined) : s.UnfoldsTo (s.perform r).1 :=
  (unfolding_performNested s.reactions.length).unfolds s r held grip hr h

/-! ## Steps -/

theorem AtRest.unfolds_perform (h : s.AtRest) {r : Request κ} (hr : r.KeyDetermined) :
    s.UnfoldsTo (s.perform r).1 :=
  Consistent.unfolds_perform (h.inFlight_eq.symm ▸ h.consistent) hr

/-- Requests that are made one after the other, each for a name. -/
theorem AtRest.unfolds_performAll (names : List String) (request : String → Request κ)
    (hrequest : ∀ name, (request name).KeyDetermined) (h : s.AtRest) :
    s.UnfoldsTo (names.foldl (fun s name => (s.perform (request name)).1) s) := by
  induction names generalizing s with
  | nil => exact .refl s
  | cons name rest ih =>
    have hfirst := h.perform (P := fun _ => True) trivial (hrequest name)
    exact (h.unfolds_perform (hrequest name)).trans (ih hfirst.atRest)

theorem AtRest.unfolds_dropCache (h : s.AtRest) : s.UnfoldsTo s.dropCache := by
  unfold Session.dropCache
  split
  · have hdropped : s.Passes [] { s with present := false } :=
      { Passes.refl s with
        forgets := .inl (.refl _)
        present := fun hpresent => nomatch hpresent }
    exact (hdropped.unseen rfl).trans
      ((h.without_cache.passes_tearDownIfDeserted).unfoldsTo
        (events_tearDownIfDeserted _))
  · exact .refl s

/-- One step. -/
theorem AtRest.reaches_run (h : s.AtRest) {step : Step κ} (hstep : step.KeyDetermined) :
    s.UnfoldsTo (s.run step).1 := by
  cases step with
  | request r => exact h.unfolds_perform hstep
  | dropCache => exact h.unfolds_dropCache
  | closeRefs => exact h.unfolds_performAll s.refs.keys .closeRef fun _ => trivial
  | closeHandles => exact h.unfolds_performAll s.handles.keys .closeHandle fun _ => trivial
  | askPolicy k =>
    have hasked : s.Passes []
        { s with calls := .initialAccesses (s.cache.policy.initialAccesses k) :: s.calls } :=
      { Passes.refl s with }
    exact unfolds_withCache fun _ => hasked.unseen rfl
  | _ => exact Passes.unseen { Passes.refl s with } rfl

theorem AtRest.unfolds_run (h : s.AtRest) {step : Step κ} (hstep : step.KeyDetermined) :
    ∃ log, s.Unfolds [] log (s.run step).1 :=
  (h.reaches_run hstep).imp fun _ hlog => hlog.unfolds

/-- Many steps, one after the other. -/
theorem AtRest.reaches_runAll (steps : List (Step κ)) (hsteps : ∀ step ∈ steps, step.KeyDetermined)
    (h : s.AtRest) : s.UnfoldsTo (s.runAll steps) := by
  induction steps generalizing s with
  | nil => exact .refl s
  | cons step rest ih =>
    have hstep := hsteps step List.mem_cons_self
    have hfirst := h.run (P := fun _ => True) trivial hstep fun _ _ => trivial
    exact (h.reaches_run hstep).trans
      (ih (fun step hstep => hsteps step (List.mem_cons_of_mem _ hstep)) hfirst.atRest)

theorem AtRest.unfolds_runAll (steps : List (Step κ)) (hsteps : ∀ step ∈ steps, step.KeyDetermined)
    (h : s.AtRest) : ∃ log, s.Unfolds [] log (s.runAll steps) :=
  (h.reaches_runAll steps hsteps).imp fun _ hlog => hlog.unfolds

end Session

end RefCache
