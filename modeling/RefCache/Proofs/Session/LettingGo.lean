import RefCache.Proofs.Chronicle.Evictions
import RefCache.Proofs.Session.Asks

/-!
# Evicted entries are let go in order

When an operation has made entries leave the cache, observers are told about them one after the other, and then
the entries are let go, again one after the other. Whatever the observers ask for, nobody becomes a client of
an entry that has left (`Cache.Trace.clients_of_departed`), so an entry that no other operation keeps is dropped
when it is let go for the last time. If nobody else has a handle to its value, the value is released then
(`Session.Prepared.letsGoInOrder`).
-/

/-- What the second function gives at least where the first one does, comes in the same order. -/
theorem List.filterMap_sublist_filterMap {α β : Type*} {f g : α → Option β} {l : List α}
    (h : ∀ a ∈ l, ∀ b, f a = some b → g a = some b) : (l.filterMap f).Sublist (l.filterMap g) := by
  induction l with
  | nil => exact List.nil_sublist _
  | cons a l ih =>
    have hrest := ih fun b hb => h b (List.mem_cons_of_mem a hb)
    rw [List.filterMap_cons, List.filterMap_cons]
    -- `f` gives nothing here, and `g` something at most
    cases hf : f a with
    | none =>
      cases g a with
      | none => exact hrest
      | some c => exact hrest.cons c
    | some b =>
      rw [h a List.mem_cons_self b hf]
      exact hrest.cons_cons b

namespace RefCache

universe u

variable {κ : Type u} [Key κ]

/-! ## Entries that have left get no clients -/

namespace Cache

variable {c c' : Cache κ} {base : List EntryId} {id : EntryId} {ops : List (Operation κ)}

theorem clients_tableAfter_of_departed (howned : c.Owned) (hid : c.Departed id)
    (hclients : c.entries.clients id = 0) (op : Operation κ) : (c.tableAfter op).clients id = 0 := by
  cases op with
  | store s k value size observer =>
    unfold tableAfter
    dsimp only
    -- a new entry has another number
    split
    · exact hclients
    · rw [EntryTable.clients_enroll _ rfl, if_neg (Nat.ne_of_gt hid.1)]
      exact hclients
  | get s k =>
    cases hget : c.cached.get? k with
    | none => rw [tableAfter_get_of_missed hget, hclients]
    | some j =>
      -- what answers a request is cached, and the entry is not
      have hne : j ≠ id := by
        intro hj
        obtain ⟨size, hmem⟩ := (c.cached.get?_eq_some_iff k j).1 hget
        obtain ⟨e, he, _, _, horphan⟩ := howned.entry_of_cached _ hmem
        simp [hid.2 e (hj ▸ he)] at horphan
      rw [clients_tableAfter_get howned hget, hclients, if_neg hne]
  | release s j =>
    -- clients that are not there cannot get fewer
    show EntryTable.clients (c.entries.update j Entry.dropClient) id = 0
    rw [EntryTable.clients_dropClient, hclients, Nat.zero_sub]
  | _ => exact hclients

theorem Trace.clients_of_departed (h : c.Trace ops c') (howned : c.Owned) (hid : c.Departed id)
    (hclients : c.entries.clients id = 0) : c'.entries.clients id = 0 := by
  induction h with
  | start => exact hclients
  -- an operation marks entries, and gives clients to those that have not departed
  | perform before determined kept accepts ih =>
    have howned' := before.owned howned
    have horderly := apply_orderly howned' kept determined accepts
    rw [horderly.marks.clients_eq]
    exact clients_tableAfter_of_departed howned' (hid.evolves (before.evolves howned)) ih _
  -- forgetting an entry takes its row away
  | @forget _ c' j _ _ ih =>
    show (c'.entries.remove j).readout Entry.clients id = 0
    rw [Register.readout_remove]
    split
    · rfl
    · exact ih
  | tearDown _ none_left _ _ => exact Register.readout_of_none _ _ (none_left id)

end Cache

namespace Session

variable {s s' s'' : Session κ} {respond : Responder κ} {held : List ClientId} {grip : List ValueId}

/-! ## Values on the wane -/

/-- The values of the later session were there before, and had no fewer handles. -/
def Wanes (s s' : Session κ) : Prop :=
  ∀ v value', s'.values.get? v = some value' → ∃ value, s.values.get? v = some value ∧
    value'.handles ≤ value.handles ∧ value'.reported = value.reported

theorem Wanes.refl (s : Session κ) : s.Wanes s :=
  fun _ value' h => ⟨value', h, Nat.le_refl _, rfl⟩

theorem Wanes.trans (h : s.Wanes s') (h' : s'.Wanes s'') : s.Wanes s'' := by
  intro v value'' hvalue''
  obtain ⟨value', hvalue', hle', hreported'⟩ := h' v value'' hvalue''
  obtain ⟨value, hvalue, hle, hreported⟩ := h v value' hvalue'
  exact ⟨value, hvalue, Nat.le_trans hle' hle, hreported'.trans hreported⟩

/-- Handles are dropped. -/
theorem wanes_dropHandle (s : Session κ) (v : ValueId) : s.Wanes (s.dropHandle v) := by
  -- a value that is released is gone
  have hremoved : ∀ s' : Session κ, s'.values = s.values.remove v → s.Wanes s' := by
    intro s' hvalues w value' hvalue'
    rw [hvalues, Register.get?_remove] at hvalue'
    split at hvalue'
    · exact nomatch hvalue'
    · exact ⟨value', hvalue', Nat.le_refl _, rfl⟩
  unfold dropHandle
  split
  · exact .refl s
  · split
    · dsimp only
      split
      · exact hremoved _ rfl
      · exact hremoved _ rfl
    · -- the value loses one handle, and its size is the same
      intro w value' hvalue'
      change (s.values.update v _).get? w = some value' at hvalue'
      rw [Register.get?_update] at hvalue'
      split at hvalue'
      · rename_i hw
        obtain ⟨value, hvalue, rfl⟩ := Option.map_eq_some_iff.1 hvalue'
        exact ⟨value, hw ▸ hvalue, Nat.sub_le _ _, rfl⟩
      · exact ⟨value', hvalue', Nat.le_refl _, rfl⟩

theorem wanes_letGo (s : Session κ) (id : EntryId) : s.Wanes (s.letGo id) := by
  let s₁ : Session κ := { s with inFlight := s.inFlight.erase id }
  show s₁.Wanes (s₁.dropUnlessHeld id)
  rcases s₁.dropUnlessHeld_cases id with ⟨heq, _⟩ | ⟨e, _, _, heq⟩
  · rw [heq]
    exact .refl s₁
  · let s₂ : Session κ := { s₁ with cache := s₁.cache.forget id }
    rw [heq]
    exact s₂.wanes_dropHandle e.value

theorem wanes_letGoAll (s : Session κ) (ids : List EntryId) : s.Wanes (ids.foldl letGo s) := by
  induction ids generalizing s with
  | nil => exact .refl s
  | cons id rest ih => exact (s.wanes_letGo id).trans (ih _)

/-! ## Values that nobody else has -/

/-- The values that have been released, in order. -/
def released (s : Session κ) : List ValueId :=
  s.events.reverse.filterMap fun
    | .released v _ => some v
    | _ => none

/-- The value of an entry, if nobody else has a handle to it and its release is reported. -/
def soleValue? (s : Session κ) (id : EntryId) : Option ValueId :=
  match s.cache.entries.get? id with
  | none => none
  | some e => match s.values.get? e.value with
    | none => none
    | some value => if value.handles ≤ 1 ∧ value.reported = true then some e.value else none

theorem soleValue?_eq_some_iff {id : EntryId} {v : ValueId} : s.soleValue? id = some v ↔
    ∃ e value, s.cache.entries.get? id = some e ∧ e.value = v ∧ s.values.get? v = some value ∧
      value.handles ≤ 1 ∧ value.reported = true := by
  unfold soleValue?
  constructor
  · -- entry, value and both conditions are looked at one after the other
    intro h
    split at h
    · exact nomatch h
    · rename_i e he
      split at h
      · exact nomatch h
      · rename_i value hvalue
        rw [Option.ite_none_right_eq_some] at h
        obtain ⟨⟨hlast, hreported⟩, hv⟩ := h
        cases hv
        exact ⟨e, value, he, rfl, hvalue, hlast, hreported⟩
  · rintro ⟨e, value, he, rfl, hvalue, hlast, hreported⟩
    simp [he, hvalue, hlast, hreported]

theorem released_of_events (h : s.events <:+ s'.events) : s.released <+: s'.released :=
  (List.reverse_prefix.2 h).filterMap _

/-- An entry that nobody refers to any more goes, and its value with it if nobody else has a handle to it. -/
theorem released_letGo {id : EntryId} {v : ValueId} (hkept : id ∉ s.inFlight.erase id)
    (hrefers : s.cache.refersTo id = false) (hsole : s.soleValue? id = some v) :
    (s.letGo id).released = s.released ++ [v] := by
  obtain ⟨e, value, he, rfl, hvalue, hlast, hreported⟩ := soleValue?_eq_some_iff.1 hsole
  have hevents : (s.letGo id).events = .released e.value value.tag :: s.events := by
    simp [letGo, dropUnlessHeld, dropHandle, hkept, hrefers, he, hvalue, hlast, hreported, record]
  simp [released, hevents]

/-- Entries that are kept stay what they are while others are let go. -/
theorem KeepsInFlight.get?_letGoAll (hkept : s.KeepsInFlight) (howned : s.cache.Owned) {id : EntryId}
    {e : Entry κ} (he : s.cache.entries.get? id = some e) {ids : List EntryId}
    (hid : id ∈ (ids.foldl letGo s).inFlight) :
    (ids.foldl letGo s).cache.entries.get? id = some e := by
  have hpasses := passes_letGoAll ids howned
  obtain ⟨e', he'⟩ := hpasses.kept hkept id hid
  rcases hpasses.forgets with hforgets | hdissolved
  · rw [he', ← he, ← hforgets.entries.kept id e' he']
  · rw [hdissolved.2 id] at he'
    exact nomatch he'

/-- Whoever alone has a handle to a value still has it when other entries have been let go. -/
theorem Consistent.soleValue?_letGoAll (ids : List EntryId) {base : List EntryId} {id : EntryId}
    {v : ValueId} (h : s.Consistent s.inFlight held grip) (hkept : s.KeepsInFlight) (hinFlight : s.inFlight = ids ++ base)
    (hid : id ∈ base) (hsole : s.soleValue? id = some v) : (ids.foldl Session.letGo s).soleValue? id = some v := by
  obtain ⟨e, value, he, rfl, hvalue, hlast, hreported⟩ := soleValue?_eq_some_iff.1 hsole
  have hsettled := h.letGoAll ids hinFlight
  have he' := hkept.get?_letGoAll h.owned he (hsettled.inFlight_eq.symm ▸ hid)
  -- the value has not been released, and has not got more handles
  obtain ⟨value', hvalue', _⟩ := hsettled.own.balanced.unreleased he'
  obtain ⟨value₀, hvalue₀, hle, hsame⟩ := s.wanes_letGoAll ids e.value value' hvalue'
  rw [hvalue, Option.some.injEq] at hvalue₀
  subst hvalue₀
  exact soleValue?_eq_some_iff.2
    ⟨e, value', he', rfl, hvalue', Nat.le_trans hle hlast, hsame.trans hreported⟩

/-- Nobody refers to the entry any more: it has left, and has no clients. -/
def Abandons (s : Session κ) (id : EntryId) : Prop :=
  ∀ e, s.cache.entries.get? id = some e → e.orphan = true ∧ e.clients = 0

theorem Consistent.abandons_letGoAll (ids : List EntryId) {base : List EntryId} {id : EntryId}
    (h : s.Consistent s.inFlight held grip) (hkept : s.KeepsInFlight) (hinFlight : s.inFlight = ids ++ base)
    (hid : id ∈ base) (habandons : s.Abandons id) : (ids.foldl Session.letGo s).Abandons id := by
  intro e he
  obtain ⟨e₀, he₀⟩ := hkept id (hinFlight ▸ List.mem_append_right ids hid)
  have hsame := hkept.get?_letGoAll h.owned he₀ ((h.letGoAll ids hinFlight).inFlight_eq.symm ▸ hid)
  rw [he, Option.some.injEq] at hsame
  exact hsame ▸ habandons e₀ he₀

/-- Entries that nobody refers to are let go one after the other. Those that are not kept any longer go, and their
values are released in this order unless somebody else has handles to them. -/
theorem Consistent.released_letGoAll (ids : List EntryId) {base : List EntryId}
    (h : s.Consistent s.inFlight held grip)
    (hkept : s.KeepsInFlight) (hinFlight : s.inFlight = ids ++ base) (hnodup : ids.Nodup)
    (habandons : ∀ id ∈ ids, s.Abandons id) :
    (s.released ++ (ids.filter (· ∉ base)).filterMap s.soleValue?).Sublist
      (ids.foldl Session.letGo s).released := by
  induction ids generalizing s with
  | nil => simp
  | cons id rest ih =>
    have hfirst := h.letGo hinFlight
    have hkept' := (passes_letGo h.owned id).kept hkept
    rw [List.nodup_cons] at hnodup
    have hstays : s.released.Sublist (s.letGo id).released :=
      (released_of_events (s.events_letGo id)).sublist
    -- the first one goes if nobody keeps it any longer
    have hone : (s.released ++ ([id].filter (· ∉ base)).filterMap s.soleValue?).Sublist
        (s.letGo id).released := by
      by_cases hbase : id ∈ base
      · simpa [hbase] using hstays
      · cases hsole : s.soleValue? id with
        | none => simpa [hbase, hsole] using hstays
        | some v =>
          obtain ⟨e, _, he, _⟩ := soleValue?_eq_some_iff.1 hsole
          obtain ⟨horphan, hclients⟩ := habandons id List.mem_cons_self e he
          have hlast : id ∉ s.inFlight.erase id := by simp [hinFlight, hnodup.1, hbase]
          rw [released_letGo hlast (refersTo_of_orphan h.owned he horphan hclients) hsole]
          simp [hbase, hsole]
    -- and the others are as they were
    have hothers : ((rest.filter (· ∉ base)).filterMap s.soleValue?).Sublist
        ((rest.filter (· ∉ base)).filterMap (s.letGo id).soleValue?) :=
      List.filterMap_sublist_filterMap fun j hj v hsole =>
        h.soleValue?_letGoAll [id] hkept hinFlight
          (List.mem_append_left _ (List.mem_of_mem_filter hj)) hsole
    have hrest := ih hfirst.own hkept' hfirst.inFlight_eq hnodup.2 fun j hj =>
      h.abandons_letGoAll [id] hkept hinFlight (List.mem_append_left _ hj)
        (habandons j (List.mem_cons_of_mem _ hj))
    have hsplit : (id :: rest).filter (· ∉ base) = [id].filter (· ∉ base) ++ rest.filter (· ∉ base) :=
      List.filter_append [id] rest
    rw [hsplit, List.filterMap_append, ← List.append_assoc]
    exact (hone.append hothers).trans hrest

theorem not_mem_released {v : ValueId} (h : s.releases v = 0) : v ∉ s.released := by
  intro hmem
  obtain ⟨event, hevent, heq⟩ := List.mem_filterMap.1 hmem
  have hother := List.countP_eq_zero.1 h event (List.mem_reverse.1 hevent)
  split at heq
  · cases heq
    exact hother (by simp [Event.Releases])
  · simp at heq

/-! ## What an operation evicts -/

section Operation

variable {m : Session κ} {op : Operation κ} {log : List (Incident κ)}

/-- The values of the entries that the operation evicts are released in order once the observers have been told,
if nobody else has a handle to them then. The entries that are still kept, by other operations that are under way
or by the reference that has been dropped, have their values until then. -/
structure LetsGoInOrder (respond : Responder κ) (m : Session κ) (op : Operation κ) : Prop where
  in_order : ((heardOut respond m op).released
    ++ ((⟨m.cache, op⟩ : Asked κ).evicted.filter (· ∉ m.inFlight)).filterMap
        (heardOut respond m op).soleValue?).Sublist
      (m.finish respond op (m.cache.apply op)).released
  still_kept : ∀ id ∈ m.inFlight, ∃ e,
    (m.finish respond op (m.cache.apply op)).cache.entries.get? id = some e ∧
      e.value ∉ (m.finish respond op (m.cache.apply op)).released

/-- Observers keep the session consistent, and all that the operation let go is kept for them. -/
theorem Prepared.settles_heardOut (h : m.Prepared op held grip) (hrespond : Sound respond) :
    m.Settles (heardOut respond m op)
      ((m.cache.apply op).notices.map Notice.entry ++ (m.cache.apply op).detached ++ m.inFlight)
      held grip :=
  h.adopt.andThen (h.adopt.own.tellAll hrespond _)

/-- What was evicted is still away when the observers have been told, and nobody has become its client. -/
theorem Prepared.abandons_of_evicted (h : m.Prepared op held grip) (hrespond : Sound respond) {id : EntryId}
    (hid : id ∈ (⟨m.cache, op⟩ : Asked κ).evicted) : (heardOut respond m op).Abandons id := by
  intro e he
  have hadopted := h.adopt
  obtain ⟨_, _, htrace, _⟩ := (hadopted.own.tellAll hrespond (m.cache.apply op).notices).leads.trace
  have howned := hadopted.own.owned
  obtain ⟨hdeparted, hclients⟩ := h.ready.departed_of_evicted hid
  have hstill : (heardOut respond m op).cache.entries.clients id = 0 :=
    htrace.clients_of_departed howned hdeparted hclients
  rw [EntryTable.clients_of_get? he] at hstill
  exact ⟨(hdeparted.evolves (htrace.evolves howned)).2 e he, hstill⟩

theorem Prepared.letsGoInOrder (h : m.Prepared op held grip) (hrespond : Sound respond)
    (hkept : (heardOut respond m op).KeepsInFlight) : LetsGoInOrder respond m op := by
  have hready := h.ready
  have hsettled := h.settles_heardOut hrespond
  have hfinish := h.finish hrespond
  constructor
  · -- the entries that are evicted are let go last
    obtain ⟨_, others, hdetached⟩ := hready.consequences
    have hletGo : m.finish respond op (m.cache.apply op)
        = ((m.cache.apply op).notices.map Notice.entry ++ (m.cache.apply op).detached).foldl letGo
            (heardOut respond m op) := rfl
    have hinFlight := hsettled.inFlight_eq
    rw [hdetached, ← List.append_assoc] at hletGo hinFlight
    rw [List.append_assoc] at hinFlight
    rw [List.foldl_append] at hletGo
    have habandons : ∀ id ∈ (⟨m.cache, op⟩ : Asked κ).evicted, (heardOut respond m op).Abandons id :=
      fun _ hid => h.abandons_of_evicted hrespond hid
    -- what the operation has told comes down to a session and the entries before the evicted ones
    generalize heardOut respond m op = u at *
    generalize (m.cache.apply op).notices.map Notice.entry ++ others = first at *
    have hfirst := hsettled.own.letGoAll first hinFlight
    have hlast := hfirst.own.released_letGoAll _ ((passes_letGoAll first hsettled.own.owned).kept hkept)
      hfirst.inFlight_eq hready.nodup_evicted fun id hid =>
        hsettled.own.abandons_letGoAll first hkept hinFlight (List.mem_append_left _ hid) (habandons id hid)
    -- letting the first ones go releases what it does, and takes nothing back
    have hstays := (released_of_events (events_foldl events_letGo u first)).sublist
    rw [hletGo]
    refine (hstays.append ?_).trans hlast
    exact List.filterMap_sublist_filterMap fun id hid v hsole =>
      hsettled.own.soleValue?_letGoAll first hkept hinFlight
        (List.mem_append_left _ (List.mem_of_mem_filter hid)) hsole
  · -- what others keep is still there, and so is its value
    intro id hid
    have hkept' : (m.finish respond op (m.cache.apply op)).KeepsInFlight :=
      (passes_letGoAll _ hsettled.own.owned).kept hkept
    obtain ⟨e, he⟩ := hkept' id (hfinish.inFlight_eq.symm ▸ hid)
    obtain ⟨_, _, hunreleased⟩ := hfinish.own.balanced.unreleased he
    exact ⟨e, he, not_mem_released hunreleased⟩

end Operation

/-! ## Telling in order -/

section Telling

variable {m : Session κ} {op : Operation κ} {errands : List Errand} {log : List (Incident κ)}

/-- What is to be told is told in order to all who have an observer. -/
theorem Unfolds.announced_sublist (h : s.Unfolds errands log s') (hkept : s.KeepsInFlight)
    (hlater : m.Outlives s) (hthere : ∀ d ∈ errands, ∃ e, m.cache.entries.get? d.notice.entry = some e) :
    (errands.flatMap fun d => m.announced d.notice).Sublist (announcedOf log) := by
  induction h with
  | done => exact List.nil_sublist _
  | pass => exact List.nil_sublist _
  | operate => exact List.nil_sublist _
  | @tell s s₁ s₂ s' d errands _ _ _ _ log log' _ keeps heard answer _ _ _ _ ih =>
    -- what the observer asks for takes nothing away of what is kept for the notices to come
    have hkept₁ := heard.kept hkept
    have hsince : s.Outlives s₂ := heard.outlives.trans answer.proceeds.outlives
    have hsame : s.announced d.notice = m.announced d.notice :=
      hlater.announced_eq (hthere d List.mem_cons_self)
        (hkept d.notice.entry (keeps _ List.mem_cons_self))
    have hrest := ih (answer.proceeds.keepsInFlight hkept₁) (hlater.trans hsince)
      fun d' hd' => hthere d' (List.mem_cons_of_mem _ hd')
    -- between the first notice and the rest stands what the observer has asked for
    simp only [List.flatMap_cons, announcedOf_told, announcedOf_append, announcedOf_answered, hsame]
    exact (List.Sublist.refl _).append (hrest.trans (List.sublist_append_right _ _))

theorem told_of_events (h : s.events <:+ s'.events) : s.told <+: s'.told :=
  (List.reverse_prefix.2 h).filterMap _

/-- An operation tells its notices in order, in the midst of what observers ask for. -/
theorem Prepared.told_sublist (h : m.Prepared op held grip) (hkept : m.KeepsInFlight)
    (hlog : (m.adopt op (m.cache.apply op)).Unfolds (m.cache.apply op).errands log s') :
    (m.told ++ (m.cache.apply op).notices.flatMap (m.adopt op (m.cache.apply op)).announced).Sublist
      s'.told := by
  have hadopted := h.keepsInFlight hkept
  have hannounced := hlog.announced_sublist hadopted (.refl _) fun d hd => by
    obtain ⟨n, hn, rfl⟩ := List.mem_map.1 hd
    exact hadopted n.entry (List.mem_append_left _ (List.mem_append_left _ (List.mem_map_of_mem hn)))
  rw [hlog.proceeds.follows.told_eq]
  rw [Transition.errands, List.flatMap_map] at hannounced
  exact (List.Sublist.refl m.told).append hannounced

end Telling

end Session

end RefCache
