import RefCache.Proofs.Session.Consistency
import RefCache.Session.Perform

/-!
# Delivering consequences keeps a session consistent

An operation of the cache is adopted by a session that is `Prepared` for it: the books have changed
already as the operation changes the table of entries. What follows, telling the observers and
letting go of entries, keeps the session consistent, provided that the requests of observers do
(`Sound`).

* `Prepared.finish`  an operation with all its consequences
* `Consistent.dropRef`  a copy of a reference is dropped, and with the last one the client
* `Consistent.placeRef`  a copy of a reference gets a name
-/

namespace RefCache

universe u

variable {κ : Type u} [Key κ]

/-- Requests about keys keep a session consistent. -/
def Sound (respond : Responder κ) : Prop :=
  ∀ (s : Session κ) (r : Request κ) (held : List ClientId) (grip : List ValueId),
    r.KeyDetermined → s.Consistent s.inFlight held grip →
    s.Settles (respond s r).1 s.inFlight held grip

/-- What is extracted, and what is left, was in the list. -/
theorem mem_of_extractFirst {α : Type u} {test : α → Bool} {l rest : List α} {a : α}
    (h : extractFirst test l = some (a, rest)) : a ∈ l ∧ ∀ b ∈ rest, b ∈ l := by
  induction l generalizing a rest with
  | nil => exact nomatch h
  | cons b tail ih =>
    rw [extractFirst] at h
    split at h
    · cases h
      exact ⟨List.mem_cons_self, fun b hb => List.mem_cons_of_mem _ hb⟩
    · -- the first element does not pass, so what is found is found in the rest
      obtain ⟨⟨a', rest'⟩, hfound, heq⟩ := Option.map_eq_some_iff.1 h
      cases heq
      obtain ⟨ha, hrest⟩ := ih hfound
      refine ⟨List.mem_cons_of_mem _ ha, fun c hc => ?_⟩
      rcases List.mem_cons.1 hc with rfl | hc
      · exact List.mem_cons_self
      · exact List.mem_cons_of_mem _ (hrest c hc)

theorem extractFirst_eq_none {α : Type u} {test : α → Bool} {l : List α}
    (h : ∀ a ∈ l, test a = false) : extractFirst test l = none := by
  induction l with
  | nil => rfl
  | cons a rest ih =>
    have hrest := ih fun b hb => h b (List.mem_cons_of_mem a hb)
    rw [extractFirst, h a List.mem_cons_self, hrest]
    rfl

namespace Session

variable {s s' : Session κ} {respond : Responder κ} {base : List EntryId} {held : List ClientId}
  {grip : List ValueId}

/-! ## Observers -/

/-- One request of a reaction, which is seen when it has come to its end. -/
theorem Consistent.reactOnce (h : s.Consistent s.inFlight held grip) (hrespond : Sound respond)
    (k : κ) {q : Request κ} (hq : q.KeyDetermined) :
    s.Settles (s.reactOnce respond k q) s.inFlight held grip := by
  unfold Session.reactOnce
  split
  · exact h.settles
  · have hperformed := hrespond s q held grip hq h
    have hrecorded := hperformed.own.record (e := .reacted k (respond s q).2) fun _ => rfl
    exact hperformed.andThen hrecorded

/-- The requests of one reaction, one after the other. -/
theorem Consistent.reactAll (h : s.Consistent s.inFlight held grip) (hrespond : Sound respond)
    (k : κ) (requests : List (Request κ)) (hrequests : ∀ q ∈ requests, q.KeyDetermined) :
    s.Settles (requests.foldl (Session.reactOnce respond k) s) s.inFlight held grip := by
  induction requests generalizing s with
  | nil => exact h.settles
  | cons q rest ih =>
    have honce := h.reactOnce hrespond k (hrequests q List.mem_cons_self)
    exact honce.andThen (ih honce.own fun q hq => hrequests q (List.mem_cons_of_mem _ hq))

/-- A reaction is used up before its requests are made. -/
theorem Consistent.useUp (h : s.Consistent s.inFlight held grip) {rest : List (Reaction κ)}
    (hrest : ∀ r ∈ rest, r ∈ s.reactions) :
    ({ s with reactions := rest } : Session κ).Consistent s.inFlight held grip :=
  ⟨h.owned, h.kept, h.balanced.congr rfl rfl rfl rfl rfl fun _ => rfl,
    fun r hr => h.reactions r (hrest r hr)⟩

theorem Consistent.react (h : s.Consistent s.inFlight held grip) (hrespond : Sound respond) (k : κ)
    (exclusive : Bool) :
    s.Settles (s.react respond k exclusive) s.inFlight held grip := by
  unfold Session.react
  split
  · exact h.settles
  · rename_i reaction rest hfound
    obtain ⟨hreaction, hrest⟩ := mem_of_extractFirst hfound
    have hreacted := (h.useUp hrest).reactAll hrespond k reaction.requests
      (h.reactions reaction hreaction)
    have hleads : s.Leads { s with reactions := rest } :=
      ⟨rfl, rfl, [], rfl, .start, fun _ h => nomatch h⟩
    exact ⟨hreacted.consistent, hreacted.inFlight_eq, hleads.trans hreacted.leads⟩

theorem Consistent.tell (h : s.Consistent s.inFlight held grip) (hrespond : Sound respond)
    (n : Notice) :
    s.Settles (s.tell respond n) s.inFlight held grip := by
  unfold Session.tell
  split
  · exact h.settles
  · rename_i e _
    split
    · exact h.settles
    · rename_i observer _
      have hrecorded := h.record
        (e := .told n.entry observer e.key n.exclusive (s.sight? e.key)) fun _ => rfl
      exact hrecorded.trans (hrecorded.own.react hrespond e.key n.exclusive)

theorem Consistent.tellAll (h : s.Consistent s.inFlight held grip) (hrespond : Sound respond)
    (notices : List Notice) :
    s.Settles (notices.foldl (Session.tell respond) s) s.inFlight held grip := by
  induction notices generalizing s with
  | nil => exact h.settles
  | cons n rest ih =>
    have hfirst := h.tell hrespond n
    exact hfirst.andThen (ih hfirst.own)

/-! ## Operations -/

/-- The session can adopt what an operation makes of its cache: the books fit the table afterwards. -/
structure Prepared (s : Session κ) (op : Operation κ) (held : List ClientId) (grip : List ValueId) :
    Prop where
  owned : s.cache.Owned
  kept : s.cache.KeepsOrphans s.inFlight
  determined : op.KeyDetermined
  accepts : s.cache.Accepts s.inFlight op
  offered : ∀ w, op.surroundings? = some w → w.offered = s.offered
  balanced : s.Balanced (s.cache.tableAfter op) held grip
  reactions : ∀ r ∈ s.reactions, r.KeyDetermined

theorem Prepared.orderly {op : Operation κ} (h : s.Prepared op held grip) :
    (s.cache.apply op).Orderly (s.cache.tableAfter op) s.inFlight [] :=
  Cache.apply_orderly h.owned h.kept h.determined h.accepts

/-- The state of the cache after the operation is taken over, and its entries are kept. -/
theorem Prepared.adopt {op : Operation κ} (h : s.Prepared op held grip) :
    s.Settles (s.adopt op (s.cache.apply op))
      (((s.cache.apply op).notices.map Notice.entry ++ (s.cache.apply op).detached) ++ s.inFlight)
      held grip := by
  have horderly := h.orderly
  refine ⟨⟨horderly.owned, ?_, ?_, h.reactions⟩, rfl, rfl, rfl, [op], rfl, ?_, ?_⟩
  · intro id e he hentry hclients
    have hmem := horderly.kept id e he hentry hclients
    rw [List.mem_append] at hmem
    rw [List.mem_append, List.mem_append]
    -- an orphan was kept before, or has just been detached
    rcases hmem with hbase | hdetached
    · exact .inr hbase
    · exact .inl (.inr hdetached)
  · -- marks on entries do not concern the books
    exact (h.balanced.ages horderly.marks).congr rfl rfl rfl rfl rfl fun _ => rfl
  · exact Cache.Trace.start.perform h.determined h.kept h.accepts
  · intro op' hop'
    rw [List.mem_singleton.1 hop']
    exact h.offered

/-- An operation with all its consequences. -/
theorem Prepared.finish {op : Operation κ} (h : s.Prepared op held grip) (hrespond : Sound respond) :
    s.Settles (s.finish respond op (s.cache.apply op)) s.inFlight held grip := by
  have hadopted := h.adopt
  have htold := hadopted.andThen (hadopted.own.tellAll hrespond (s.cache.apply op).notices)
  exact htold.trans (htold.own.letGoAll _ htold.inFlight_eq)

/-! ## References -/

/-- Tearing down, where it is due, keeps a session consistent. -/
theorem Consistent.tearDownIfDeserted (h : s.Consistent s.inFlight held grip) :
    s.Settles s.tearDownIfDeserted s.inFlight held grip ∧ s.tearDownIfDeserted.Cleared := by
  cases hdeserted : s.deserted with
  | false =>
    rw [tearDownIfDeserted_of_shared hdeserted]
    exact ⟨h.settles, fun h => absurd (hdeserted.symm.trans h) Bool.false_ne_true⟩
  | true =>
    have hinFlight := (s.deserted_iff.1 hdeserted).2.2
    rw [hinFlight] at h ⊢
    obtain ⟨hsettles, hnone⟩ := h.tearDown hdeserted
    exact ⟨hsettles, fun _ => hnone⟩

/-- The session whose client has gone while the cache is told so: the entry is kept. -/
def parting (s : Session κ) (c : ClientId) (id : EntryId) : Session κ :=
  ({ s with clients := s.clients.remove c }.keep id).afterReading

/-- The books are ready for a client to let go of its entry. -/
theorem Consistent.prepared_release {c : ClientId}
    (h : s.Consistent s.inFlight (c :: held) grip) {client : Client} {e : Entry κ}
    (hclient : s.clients.get? c = some client) (he : s.cache.entries.get? client.entry = some e)
    (hclients : 0 < e.clients) (hlast : client.copies ≤ 1) :
    (s.parting c client.entry).Prepared (.release s.surroundings client.entry) held grip where
  owned := h.owned
  kept := fun id e he horphan hzero => List.mem_cons_of_mem _ (h.kept id e he horphan hzero)
  determined := trivial
  accepts := ⟨(EntryTable.clients_of_get? he).symm ▸ hclients, List.mem_cons_self⟩
  offered := fun _ hw => (Option.some.inj hw).symm ▸ rfl
  balanced := (h.balanced.dropLastCopy hclient hlast he).congr rfl rfl rfl rfl rfl fun _ => rfl
  reactions := h.reactions

theorem dropRef_last {c : ClientId} {client : Client} (hclient : s.clients.get? c = some client)
    (hlast : client.copies ≤ 1) (respond : Responder κ) : s.dropRef respond c
      = (((s.parting c client.entry).finish respond (.release s.surroundings client.entry)
          (s.cache.apply (.release s.surroundings client.entry))).letGo
            client.entry).tearDownIfDeserted := by
  unfold Session.dropRef
  rw [hclient]
  exact if_neg (Nat.not_lt.2 hlast)

theorem dropRef_more {c : ClientId} {client : Client} (hclient : s.clients.get? c = some client)
    (hmore : 1 < client.copies) (respond : Responder κ) : s.dropRef respond c
      = { s with clients := s.clients.update c fun c => { c with copies := c.copies - 1 } } := by
  unfold Session.dropRef
  rw [hclient]
  exact if_pos hmore

/-- The last copy of a reference is dropped: the client has let go of its entry. -/
theorem Consistent.letGo_parting {c : ClientId}
    (h : s.Consistent s.inFlight (c :: held) grip) (hrespond : Sound respond) {client : Client}
    {e : Entry κ} (hclient : s.clients.get? c = some client)
    (he : s.cache.entries.get? client.entry = some e) (hclients : 0 < e.clients)
    (hlast : client.copies ≤ 1) :
    s.Settles (((s.parting c client.entry).finish respond (.release s.surroundings client.entry)
      (s.cache.apply (.release s.surroundings client.entry))).letGo client.entry)
        s.inFlight held grip := by
  have hleads : s.Leads (s.parting c client.entry) :=
    ⟨rfl, rfl, [], rfl, .start, fun _ h => nomatch h⟩
  have hfinished := (h.prepared_release hclient he hclients hlast).finish hrespond
  have hletGo := hfinished.own.letGo hfinished.inFlight_eq
  exact ⟨hletGo.consistent, hletGo.inFlight_eq,
    hleads.trans (hfinished.leads.trans hletGo.leads)⟩

/-- A copy of a reference that is not the last one is dropped. -/
theorem Consistent.dropCopy {c : ClientId} (h : s.Consistent s.inFlight (c :: held) grip)
    {client : Client} (hclient : s.clients.get? c = some client) (hmore : 1 < client.copies) :
    s.Settles { s with clients := s.clients.update c fun c => { c with copies := c.copies - 1 } }
      s.inFlight held grip := by
  refine h.withBooks ⟨rfl, rfl, rfl, rfl, rfl⟩ rfl
    (h.balanced.recopy hclient _ rfl (Nat.sub_pos_of_lt hmore) ?_ fun d hd => ?_)
  · rw [List.count_cons_self]
    dsimp only
    omega
  · exact (List.count_cons_of_ne (Ne.symm hd)).symm

/-- A copy of a reference is dropped, and with the last one the client. -/
theorem Consistent.dropRef {c : ClientId} (h : s.Consistent s.inFlight (c :: held) grip)
    (hrespond : Sound respond) :
    s.Settles (s.dropRef respond c) s.inFlight held grip ∧ (s.dropRef respond c).Cleared := by
  obtain ⟨client, e, hclient, he, hclients⟩ := h.balanced.exists_client (c := c)
    (by rw [List.count_cons_self]; omega)
  by_cases hmore : 1 < client.copies
  · -- other copies are left: the books change, and nothing else
    rw [dropRef_more hclient hmore]
    -- the client is still there, so nothing is torn down
    refine ⟨h.dropCopy hclient hmore, fun hdeserted => ?_⟩
    have hnone := (Register.isEmpty_iff _).1 ((deserted_iff _).1 hdeserted).2.1 c
    rw [Register.get?_update, if_pos rfl, hclient] at hnone
    exact nomatch hnone
  · -- that was the last copy: the client goes, and the cache with it if nobody else shares it
    have hlast := Nat.le_of_not_gt hmore
    have hsettled := h.letGo_parting hrespond hclient he hclients hlast
    obtain ⟨htorn, hcleared⟩ := hsettled.own.tearDownIfDeserted
    rw [dropRef_last hclient hlast]
    exact ⟨hsettled.andThen htorn, hcleared⟩

/-- A copy of a reference gets a name; the former reference of that name has yet to be dropped. -/
theorem Consistent.nameRef {c : ClientId} (h : s.Consistent s.inFlight (c :: held) grip)
    (name : String) :
    s.Settles { s with refs := s.refs.insert name c } s.inFlight (s.refs[name]?.toList ++ held)
      grip :=
  h.withBooks ⟨rfl, rfl, rfl, rfl, rfl⟩ rfl (h.balanced.nameRef name)

/-- A copy of a reference gets a name, or is dropped when there is none. -/
theorem Consistent.placeRef {c : ClientId} (h : s.Consistent s.inFlight (c :: held) grip)
    (hrespond : Sound respond) (into : Option String) :
    s.Settles (s.placeRef respond c into) s.inFlight held grip ∧
      (s.Cleared → (s.placeRef respond c into).Cleared) := by
  cases into with
  | none =>
    obtain ⟨hsettles, hcleared⟩ := h.dropRef hrespond
    exact ⟨hsettles, fun _ => hcleared⟩
  | some name =>
    have hnamed := h.nameRef name
    unfold Session.placeRef
    dsimp only
    cases hformer : s.refs[name]? with
    | none =>
      rw [hformer] at hnamed
      -- nobody had the name before, so nothing is dropped
      exact ⟨hnamed, fun hcleared => hcleared⟩
    -- the new reference is in place when the former one is dropped
    | some d =>
      rw [hformer] at hnamed
      obtain ⟨hsettles, hcleared⟩ := hnamed.own.dropRef hrespond
      exact ⟨hnamed.trans hsettles, fun _ => hcleared⟩

end Session

end RefCache
