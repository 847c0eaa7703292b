import RefCache.Proofs.Session.Incidents

/-!
# Changes between operations

Apart from operations and callbacks, a session changes its books, lets go of entries that nobody refers
to, and is torn down in the end. All of these are changes that leave the history of the session as it is
(`Session.Passes`).
-/

namespace RefCache

universe u

variable {κ : Type u} [Key κ]

namespace Session

variable {s s' s'' s₁ : Session κ} {respond : Responder κ} {held held' : List ClientId}
  {grip grip' : List ValueId}

/-! ## Clients come and go -/

theorem lasting_add (clients : Register Client) (client : Client) :
    Lasting clients (clients.add client) where
  next_le := Nat.le_succ _
  earlier := by
    intro c client' hc hclient'
    rw [Register.get?_add, if_neg (Nat.ne_of_gt hc)] at hclient'
    exact ⟨client', hclient', rfl⟩

theorem lasting_remove (clients : Register Client) (c : ClientId) :
    Lasting clients (clients.remove c) where
  next_le := Nat.le_refl _
  earlier := by
    intro d client' _ hclient'
    rw [Register.get?_remove] at hclient'
    split at hclient'
    · exact nomatch hclient'
    · exact ⟨client', hclient', rfl⟩

theorem lasting_update (clients : Register Client) (c : ClientId) {change : Client → Client}
    (hchange : ∀ client, (change client).entry = client.entry) :
    Lasting clients (clients.update c change) where
  next_le := Nat.le_of_eq (Register.next_update clients c change).symm
  earlier := by
    intro d client' _ hclient'
    rw [Register.get?_update] at hclient'
    split at hclient'
    · rename_i hd
      obtain ⟨client, hclient, rfl⟩ := Option.map_eq_some_iff.1 hclient'
      exact ⟨client, hd ▸ hclient, hchange client⟩
    · exact ⟨client', hclient', rfl⟩

/-! ## Changes that concern no operation -/

/-- Books change while the cache stays as it is. -/
theorem Frame.passes (h : s.Frame s') (hcache : s'.cache = s.cache)
    (hclients : Lasting s.clients s'.clients) (htold : s'.told = s.told) : s.Passes [] s' where
  operations_eq := h.operations_eq
  told_eq := by rw [htold, List.append_nil]
  trace := hcache ▸ .start
  forgets := .inl (hcache ▸ .refl _)
  present := fun hpresent => h.present_eq ▸ hpresent
  kept := by
    intro hkept id hid
    rw [hcache]
    exact hkept id (h.inFlight_eq ▸ hid)
  clients := hclients

theorem SameHolders.passes (h : s.SameHolders s') (htold : s'.told = s.told) : s.Passes [] s' :=
  h.toFrame.passes h.cache_eq (h.clients_eq ▸ .refl _) htold

theorem passes_record (s : Session κ) {e : Event κ} (he : e.notice? = none) :
    s.Passes [] (s.record e) :=
  Frame.passes ⟨rfl, rfl, rfl, rfl, rfl⟩ rfl (.refl _) (by simp [told_record, he])

/-- The release of a value goes on record. -/
theorem events_dropHandle (s : Session κ) (v : ValueId) : s.events <:+ (s.dropHandle v).events := by
  unfold dropHandle
  split
  · exact List.suffix_refl _
  · split
    · dsimp only
      split
      · exact List.suffix_cons _ _
      · exact List.suffix_refl _
    · exact List.suffix_refl _

theorem events_placeHandle (s : Session κ) (v : ValueId) (into : Option String) :
    s.events <:+ (s.placeHandle v into).events := by
  cases into with
  | none => exact s.events_dropHandle v
  | some name =>
    let s₁ : Session κ := { s with handles := s.handles.insert name v }
    unfold placeHandle
    dsimp only
    split
    · exact List.suffix_refl _
    · exact s₁.events_dropHandle _

/-- The release of a value is nothing that observers are told. -/
theorem told_dropHandle (s : Session κ) (v : ValueId) : (s.dropHandle v).told = s.told := by
  unfold dropHandle
  split
  · rfl
  · split
    · dsimp only
      split
      · rw [told_record]
        exact List.append_nil _
      · rfl
    · rfl

theorem passes_dropHandle (s : Session κ) (v : ValueId) : s.Passes [] (s.dropHandle v) :=
  (s.sameHolders_dropHandle v).passes (s.told_dropHandle v)

theorem passes_placeHandle (s : Session κ) (v : ValueId) (into : Option String) :
    s.Passes [] (s.placeHandle v into) := by
  refine (s.sameHolders_placeHandle v into).passes ?_
  cases into with
  | none => exact s.told_dropHandle v
  | some name =>
    unfold placeHandle
    dsimp only
    split
    · rfl
    · exact told_dropHandle _ _

theorem passes_addHandle (s : Session κ) (v : ValueId) : s.Passes [] (s.addHandle v) :=
  Frame.passes ⟨rfl, rfl, rfl, rfl, rfl⟩ rfl (.refl _) rfl

theorem passes_createValue (s : Session κ) (value : NewValue) :
    s.Passes [] (s.createValue value).2 :=
  Frame.passes ⟨rfl, rfl, rfl, rfl, rfl⟩ rfl (.refl _) rfl

theorem passes_afterReading (s : Session κ) : s.Passes [] s.afterReading :=
  Frame.passes ⟨rfl, rfl, rfl, rfl, rfl⟩ rfl (.refl _) rfl

theorem passes_addClient (s : Session κ) (id : EntryId) : s.Passes [] (s.addClient id).2 :=
  Frame.passes ⟨rfl, rfl, rfl, rfl, rfl⟩ rfl (lasting_add _ _) rfl

/-- One more entry is kept. -/
theorem passes_parting (s : Session κ) {c : ClientId} {id : EntryId} {e : Entry κ}
    (he : s.cache.entries.get? id = some e) : s.Passes [] (s.parting c id) where
  operations_eq := rfl
  told_eq := (List.append_nil _).symm
  trace := .start
  forgets := .inl (.refl _)
  present := fun hpresent => hpresent
  kept := by
    intro hkept j hj
    rcases List.mem_cons.1 hj with rfl | hj
    · exact ⟨e, he⟩
    · exact hkept j hj
  clients := lasting_remove _ _

/-! ## Letting entries go -/

/-- What is kept stays. -/
theorem dropUnlessHeld_of_kept {id : EntryId} (hid : id ∈ s.inFlight) : s.dropUnlessHeld id = s := by
  simp [dropUnlessHeld, hid]

theorem told_dropUnlessHeld (s : Session κ) (id : EntryId) : (s.dropUnlessHeld id).told = s.told := by
  rcases s.dropUnlessHeld_cases id with ⟨heq, _⟩ | ⟨e, _, _, heq⟩
  · rw [heq]
  · rw [heq, told_dropHandle]
    rfl

theorem told_foldl_dropUnlessHeld (s : Session κ) (ids : List EntryId) :
    (ids.foldl Session.dropUnlessHeld s).told = s.told := by
  induction ids generalizing s with
  | nil => rfl
  | cons id rest ih => exact (ih _).trans (s.told_dropUnlessHeld id)

theorem events_dropUnlessHeld (s : Session κ) (id : EntryId) :
    s.events <:+ (s.dropUnlessHeld id).events := by
  rcases s.dropUnlessHeld_cases id with ⟨heq, _⟩ | ⟨e, _, _, heq⟩
  · exact heq.symm ▸ List.suffix_refl _
  · let s₁ : Session κ := { s with cache := s.cache.forget id }
    rw [heq]
    exact s₁.events_dropHandle e.value

theorem events_letGo (s : Session κ) (id : EntryId) : s.events <:+ (s.letGo id).events :=
  events_dropUnlessHeld { s with inFlight := s.inFlight.erase id } id

theorem events_foldl {f : Session κ → EntryId → Session κ} (hf : ∀ s id, s.events <:+ (f s id).events)
    (s : Session κ) (ids : List EntryId) : s.events <:+ (ids.foldl f s).events := by
  induction ids generalizing s with
  | nil => exact List.suffix_refl _
  | cons id rest ih => exact (hf s id).trans (ih _)

theorem events_tearDownIfDeserted (s : Session κ) : s.events <:+ s.tearDownIfDeserted.events := by
  unfold tearDownIfDeserted
  split
  · exact List.suffix_refl _
  · let s₁ : Session κ := { s with cache := { s.cache with cached := .empty } }
    let s₂ : Session κ := s.cache.cached.values.foldl Session.dropUnlessHeld s₁
    let s₃ : Session κ := { s₂ with cache := { s₂.cache with policy := s₂.cache.policy.emptied } }
    have hcached : s₁.events <:+ s₂.events := s₁.events_foldl events_dropUnlessHeld _
    exact hcached.trans (s₃.events_foldl events_dropUnlessHeld _)

theorem passes_dropUnlessHeld (howned : s.cache.Owned) (id : EntryId) :
    s.Passes [] (s.dropUnlessHeld id) where
  operations_eq := (s.dropUnlessHeld_frame id).1.operations_eq
  told_eq := by rw [told_dropUnlessHeld, List.append_nil]
  trace := (s.dropUnlessHeld_frame id).2
  -- the entry goes from the table, and nothing else does
  forgets := by
    rcases s.dropUnlessHeld_cases id with ⟨heq, _⟩ | ⟨e, hrefers, _, heq⟩
    · rw [heq]
      exact .inl (.refl _)
    · rw [heq, (sameHolders_dropHandle _ _).cache_eq]
      exact .inl (Cache.forgets_forget howned hrefers)
  present := fun hpresent => (s.dropUnlessHeld_frame id).1.present_eq ▸ hpresent
  kept := by
    intro hkept j hj
    -- what is kept is not what goes
    rw [(s.dropUnlessHeld_frame id).1.inFlight_eq] at hj
    rcases s.dropUnlessHeld_cases id with ⟨heq, _⟩ | ⟨e, _, _, heq⟩
    · rw [heq]
      exact hkept j hj
    · by_cases hid : id = j
      · rw [dropUnlessHeld_of_kept (hid ▸ hj)]
        exact hkept j hj
      · rw [heq, (sameHolders_dropHandle _ _).cache_eq]
        obtain ⟨e', he'⟩ := hkept j hj
        exact ⟨e', (Register.get?_remove _ _ _).trans ((if_neg hid).trans he')⟩
  clients := (s.drops_dropUnlessHeld id).clients_eq ▸ .refl _

theorem passes_letGo (howned : s.cache.Owned) (id : EntryId) : s.Passes [] (s.letGo id) := by
  let s₁ : Session κ := { s with inFlight := s.inFlight.erase id }
  have herased : s.Passes [] s₁ :=
    { operations_eq := rfl
      told_eq := (List.append_nil _).symm
      trace := .start
      forgets := .inl (.refl _)
      present := fun hpresent => hpresent
      kept := fun hkept j hj => hkept j (List.mem_of_mem_erase hj)
      clients := .refl _ }
  have howned₁ : s₁.cache.Owned := howned
  exact herased.trans (passes_dropUnlessHeld howned₁ id)

theorem passes_letGoAll (ids : List EntryId) (howned : s.cache.Owned) :
    s.Passes [] (ids.foldl Session.letGo s) := by
  induction ids generalizing s with
  | nil => exact .refl s
  | cons id rest ih =>
    have hfirst := passes_letGo howned id
    exact hfirst.trans (ih (hfirst.trace.owned howned))

/-- Tearing down concerns the cache and values. -/
theorem frame_tearDownIfDeserted (s : Session κ) : s.Frame s.tearDownIfDeserted ∧
    s.tearDownIfDeserted.clients = s.clients ∧ s.tearDownIfDeserted.told = s.told := by
  unfold tearDownIfDeserted
  split
  · exact ⟨.refl s, rfl, rfl⟩
  · dsimp only
    -- dropping entries changes neither, for the map and for the policy alike
    let s₁ : Session κ := { s with cache := { s.cache with cached := .empty } }
    let s₂ : Session κ := s.cache.cached.values.foldl Session.dropUnlessHeld s₁
    let s₃ : Session κ := { s₂ with cache := { s₂.cache with policy := s₂.cache.policy.emptied } }
    have h₁ : s.Frame s₁ := ⟨rfl, rfl, rfl, rfl, rfl⟩
    have h₃ : s₂.Frame s₃ := ⟨rfl, rfl, rfl, rfl, rfl⟩
    have hcached := drops_foldl s₁ s.cache.cached.values
    have hexclusive := drops_foldl s₃ s₂.cache.policy.ids
    exact ⟨h₁.trans (hcached.frame.trans (h₃.trans hexclusive.frame)),
      hexclusive.clients_eq.trans hcached.clients_eq,
      (told_foldl_dropUnlessHeld s₃ _).trans (told_foldl_dropUnlessHeld s₁ _)⟩

theorem Consistent.passes_tearDownIfDeserted (h : s.Consistent s.inFlight held grip) :
    s.Passes [] s.tearDownIfDeserted := by
  obtain ⟨hframe, hclients, htold⟩ := s.frame_tearDownIfDeserted
  obtain ⟨hsettles, hcleared⟩ := h.tearDownIfDeserted
  obtain ⟨ops, hops, htrace, _⟩ := hsettles.leads.trace
  -- no operation has been performed on the way
  rw [hframe.operations_eq, List.self_eq_append_left, List.reverse_eq_nil_iff] at hops
  subst hops
  cases hdeserted : s.deserted with
  | false =>
    rw [tearDownIfDeserted_of_shared hdeserted]
    exact .refl s
  | true =>
    obtain ⟨habsent, hempty, hinFlight⟩ := s.deserted_iff.1 hdeserted
    have habsent' := hframe.present_eq.trans habsent
    have hinFlight' := hframe.inFlight_eq.trans hinFlight
    have hnone := hcleared ((deserted_iff _).2 ⟨habsent', hclients ▸ hempty, hinFlight'⟩)
    exact
      { operations_eq := hframe.operations_eq
        told_eq := by rw [htold, List.append_nil]
        trace := htrace
        forgets := .inr ⟨habsent', hnone⟩
        present := fun hpresent => absurd (habsent'.symm.trans hpresent) Bool.false_ne_true
        -- a state that nobody shares is under no operation, so nothing is kept
        kept := fun _ j hj => absurd (hinFlight' ▸ hj) List.not_mem_nil
        clients := hclients ▸ .refl _ }

end Session

end RefCache
