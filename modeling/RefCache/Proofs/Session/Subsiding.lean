import RefCache.Proofs.Ownership.Replay
import RefCache.Proofs.Session.Requests

/-!
# What an operation leaves behind

When an operation has been taken over, what is left to do is to tell the observers and to let go of entries.
As long as no observer reacts, that comes to little (`Session.Subsides`): the cache forgets entries, and values
lose handles.
-/

namespace RefCache

universe u

variable {κ : Type u} [Key κ]

namespace Session

/-- The session comes to the other one without anything being asked for: the cache forgets entries at most, and
values lose handles. -/
structure Subsides (s s' : Session κ) : Prop where
  forgets : s.cache.Forgets s'.cache
  present_eq : s'.present = s.present
  reactions_eq : s'.reactions = s.reactions
  offered_eq : s'.offered = s.offered
  clients_eq : s'.clients = s.clients
  refs_eq : s'.refs = s.refs
  handles_eq : s'.handles = s.handles
  created_eq : s'.created = s.created
  defaultObserver_eq : s'.defaultObserver = s.defaultObserver
  values : ∀ v value', s'.values.get? v = some value' →
    ∃ value, s.values.get? v = some value ∧ value'.size = value.size

variable {s s' s'' : Session κ} {respond : Responder κ} {held : List ClientId} {grip : List ValueId}

theorem Subsides.refl (s : Session κ) : s.Subsides s :=
  ⟨.refl _, rfl, rfl, rfl, rfl, rfl, rfl, rfl, rfl, fun _ value h => ⟨value, h, rfl⟩⟩

theorem Subsides.trans (h : s.Subsides s') (h' : s'.Subsides s'') : s.Subsides s'' where
  forgets := h.forgets.trans h'.forgets
  present_eq := h'.present_eq.trans h.present_eq
  reactions_eq := h'.reactions_eq.trans h.reactions_eq
  offered_eq := h'.offered_eq.trans h.offered_eq
  clients_eq := h'.clients_eq.trans h.clients_eq
  refs_eq := h'.refs_eq.trans h.refs_eq
  handles_eq := h'.handles_eq.trans h.handles_eq
  created_eq := h'.created_eq.trans h.created_eq
  defaultObserver_eq := h'.defaultObserver_eq.trans h.defaultObserver_eq
  -- a value that is left in the end was there on the way, and has been of one size
  values := by
    intro v value'' hvalue''
    obtain ⟨value', hvalue', hsize'⟩ := h'.values v value'' hvalue''
    obtain ⟨value, hvalue, hsize⟩ := h.values v value' hvalue'
    exact ⟨value, hvalue, hsize'.trans hsize⟩

/-! ## Values -/

/-- A value keeps its size as its handles come and go. -/
theorem size_of_get?_update {values : Register Value} {v w : ValueId} {change : Value → Value}
    {value' : Value} (h : (values.update v change).get? w = some value')
    (hchange : ∀ value, (change value).size = value.size) :
    ∃ value, values.get? w = some value ∧ value'.size = value.size := by
  rw [Register.get?_update] at h
  split at h
  · rename_i hw
    obtain ⟨value, hvalue, rfl⟩ := Option.map_eq_some_iff.1 h
    exact ⟨value, hw ▸ hvalue, hchange value⟩
  · exact ⟨value', h, rfl⟩

theorem subsides_addHandle (s : Session κ) (v : ValueId) : s.Subsides (s.addHandle v) :=
  { Subsides.refl s with values := fun _ _ h => size_of_get?_update h fun _ => rfl }

theorem subsides_dropHandle (s : Session κ) (v : ValueId) : s.Subsides (s.dropHandle v) := by
  -- a value that is released is gone, and the others stay as they are
  have hremove : ∀ w value', (s.values.remove v).get? w = some value' →
      ∃ value, s.values.get? w = some value ∧ value'.size = value.size := by
    intro w value' hvalue'
    rw [Register.get?_remove] at hvalue'
    split at hvalue'
    · exact nomatch hvalue'
    · exact ⟨value', hvalue', rfl⟩
  unfold dropHandle
  split
  · exact .refl s
  · split
    · dsimp only
      split
      · exact { Subsides.refl s with values := hremove }
      · exact { Subsides.refl s with values := hremove }
    · exact { Subsides.refl s with values := fun _ _ h => size_of_get?_update h fun _ => rfl }

/-! ## Letting entries go -/

theorem subsides_dropUnlessHeld (howned : s.cache.Owned) (id : EntryId) :
    s.Subsides (s.dropUnlessHeld id) := by
  rcases s.dropUnlessHeld_cases id with ⟨heq, _⟩ | ⟨e, hrefers, _, heq⟩
  · rw [heq]
    exact .refl s
  · rw [heq]
    have hforgot : s.Subsides { s with cache := s.cache.forget id } :=
      { Subsides.refl s with forgets := Cache.forgets_forget howned hrefers }
    exact hforgot.trans (subsides_dropHandle _ e.value)

theorem subsides_letGo (howned : s.cache.Owned) (id : EntryId) : s.Subsides (s.letGo id) := by
  have herased : s.Subsides { s with inFlight := s.inFlight.erase id } := { Subsides.refl s with }
  exact herased.trans (subsides_dropUnlessHeld (s := { s with inFlight := s.inFlight.erase id }) howned id)

theorem subsides_letGoAll (ids : List EntryId) (howned : s.cache.Owned) :
    s.Subsides (ids.foldl letGo s) := by
  induction ids generalizing s with
  | nil => exact .refl s
  | cons id rest ih =>
    have hfirst := subsides_letGo howned id
    exact hfirst.trans (ih (hfirst.forgets.owned howned))

/-- As long as the cache is there nothing is torn down. -/
theorem subsides_tearDownIfDeserted (h : s.present = true) : s.Subsides s.tearDownIfDeserted := by
  have hshared : s.deserted = false := by simp [deserted, h]
  rw [tearDownIfDeserted_of_shared hshared]
  exact .refl s

/-! ## Observers that do not react -/

theorem subsides_record (s : Session κ) (e : Event κ) : s.Subsides (s.record e) :=
  { Subsides.refl s with }

/-- No observer is going to react to the notice. -/
def Ignores (s : Session κ) (n : Notice) : Prop :=
  ∀ e, s.cache.entries.get? n.entry = some e → e.observer.isSome = true →
    ∀ r ∈ s.reactions, r.key = e.key → r.exclusive ≠ n.exclusive

theorem ignores_of_silent (h : s.reactions = []) (n : Notice) : s.Ignores n := by
  intro e _ _ r hr
  rw [h] at hr
  exact nomatch hr

theorem Subsides.ignores (h : s.Subsides s') {n : Notice} (hignores : s.Ignores n) : s'.Ignores n := by
  intro e he hobserver r hr
  rw [h.reactions_eq] at hr
  exact hignores e (h.forgets.entries.kept _ _ he) hobserver r hr

theorem subsides_tell (respond : Responder κ) {n : Notice} (h : s.Ignores n) : s.Subsides (s.tell respond n) := by
  unfold tell
  split
  · exact .refl s
  · rename_i e he
    split
    · exact .refl s
    · rename_i observer hobserver
      -- the reactions still to come are to other keys, or to the other news
      have hnone : extractFirst (fun r => r.key = e.key && r.exclusive = n.exclusive) s.reactions = none := by
        refine extractFirst_eq_none fun r hr => ?_
        have hother := h e he (Option.isSome_of_eq_some hobserver) r hr
        by_cases hkey : r.key = e.key
        · simp [hkey, hother hkey]
        · simp [hkey]
      have hreact : ∀ seen : Event κ, (s.record seen).react respond e.key n.exclusive = s.record seen := by
        intro seen
        unfold react
        rw [show (s.record seen).reactions = s.reactions from rfl, hnone]
      rw [hreact]
      exact s.subsides_record _

theorem subsides_tellAll (respond : Responder κ) (notices : List Notice) (h : ∀ n ∈ notices, s.Ignores n) :
    s.Subsides (notices.foldl (tell respond) s) := by
  induction notices generalizing s with
  | nil => exact .refl s
  | cons n rest ih =>
    have hfirst := subsides_tell respond (h n List.mem_cons_self)
    exact hfirst.trans (ih fun n' hn' => hfirst.ignores (h n' (List.mem_cons_of_mem n hn')))

/-- What an operation comes to, once its state has been taken over. -/
theorem Prepared.subsides_of_ignored {op : Operation κ} (h : s.Prepared op held grip) (respond : Responder κ)
    (hignored : ∀ n ∈ (s.cache.apply op).notices, (s.adopt op (s.cache.apply op)).Ignores n) :
    (s.adopt op (s.cache.apply op)).Subsides (s.finish respond op (s.cache.apply op)) := by
  have htold := subsides_tellAll respond (s.cache.apply op).notices hignored
  exact htold.trans (subsides_letGoAll _ (htold.forgets.owned h.orderly.owned))

theorem Prepared.subsides {op : Operation κ} (h : s.Prepared op held grip) (respond : Responder κ)
    (hsilent : s.reactions = []) :
    (s.adopt op (s.cache.apply op)).Subsides (s.finish respond op (s.cache.apply op)) :=
  h.subsides_of_ignored respond fun n _ =>
    ignores_of_silent (s := s.adopt op (s.cache.apply op)) hsilent n

/-- The last copy of a reference is dropped while no observer reacts: the cache is told so, and the entry is let
go. -/
theorem Consistent.subsides_dropLast {c : ClientId} (h : s.Consistent s.inFlight (c :: held) grip)
    (hrespond : Sound respond) (hpresent : s.present = true) (hsilent : s.reactions = []) {client : Client}
    (hclient : s.clients.get? c = some client) (hlast : client.copies ≤ 1) :
    (s.parting c client.entry).Prepared (.release s.surroundings client.entry) held grip ∧
      ((s.parting c client.entry).adopt (.release s.surroundings client.entry)
        (s.cache.apply (.release s.surroundings client.entry))).Subsides (s.dropRef respond c) := by
  obtain ⟨client', e, hclient', he, hclients⟩ := h.balanced.exists_client (c := c)
    (by rw [List.count_cons_self]; omega)
  obtain rfl : client' = client := Option.some.inj (hclient'.symm.trans hclient)
  have hprepared := h.prepared_release hclient he hclients hlast
  have hfinished := hprepared.subsides respond hsilent
  have hletGo := hfinished.trans
    (subsides_letGo (hprepared.finish hrespond).own.owned client'.entry)
  refine ⟨hprepared, ?_⟩
  rw [dropRef_last hclient hlast]
  exact hletGo.trans (subsides_tearDownIfDeserted (hletGo.present_eq.trans hpresent))

end Session

end RefCache
