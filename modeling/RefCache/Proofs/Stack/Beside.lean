import RefCache.Proofs.Session.Chronicle
import RefCache.Proofs.Session.Subsiding
import RefCache.Proofs.Stack.Stacked

/-!
# Two sessions side by side

Two sessions are asked for the same, the one with a short queue and the other one with a longer queue
(`Session.Beside`). They number what they hand out differently, since a request that only the longer queue can
answer makes a client in one of them alone. So users hold the same by name: under each name a reference to the
same entry and a handle to the same value (`Session.Alike`).

* `Beside.adopt`, `Beside.subside`: an operation in both sessions
* `Beside.dropRef`, `Beside.placeRef`, `Beside.storeValue`: what requests are made of
-/

namespace RefCache

universe u

variable {κ : Type u} [Key κ]

namespace Session

/-- The entry of the reference that is held under a name. -/
def entryUnder (s : Session κ) (name : String) : Option EntryId :=
  (s.refs[name]?.bind s.clients.get?).map Client.entry

/-- Two clients, one of each session, that have the same entry, or none on either side. -/
inductive SameEntry (s s' : Session κ) : Option ClientId → Option ClientId → Prop where
  | neither : SameEntry s s' none none
  | both {c c' : ClientId} {id : EntryId} (left : (s.clients.get? c).map Client.entry = some id)
      (right : (s'.clients.get? c').map Client.entry = some id) : SameEntry s s' (some c) (some c')

/-- The cache has a single queue with room for `n` entries, observers do not react, references are not copied,
and values have the sizes they were created with. -/
structure Modest (n : Nat) (s : Session κ) : Prop where
  present : s.present = true
  silent : s.reactions = []
  offered : ∃ interval, s.offered = .boundingQueue n interval
  queues : s.cache.QueuesUpTo n
  single : ∀ c client, s.clients.get? c = some client → client.copies = 1
  sized : ∀ v value, s.values.get? v = some value →
    (s.creation? v).map NewValue.size = some value.size

/-- Users hold the same in both sessions. -/
structure Alike (s s' : Session κ) : Prop where
  named : ∀ name, s'.entryUnder name = s.entryUnder name
  handles : ∀ name : String, s'.handles[name]? = s.handles[name]?
  created_eq : s'.created = s.created
  defaultObserver_eq : s'.defaultObserver = s.defaultObserver

/-- The second session holds all that the first one holds, and may hold more in its longer queue. -/
structure Abreast (n m : Nat) (s s' : Session κ) : Prop where
  modest : s.Modest n
  modest' : s'.Modest m
  stacked : Cache.Stacked n m s.cache s'.cache
  alike : s.Alike s'

/-- And both are consistent, and all that the second one holds can be counted and measured. -/
structure Beside (n m : Nat) (s s' : Session κ) (held held' : List ClientId) (grip : List ValueId) : Prop
    extends Abreast n m s s' where
  consistent : s.Consistent s.inFlight held grip
  consistent' : s'.Consistent s'.inFlight held' grip
  accountable : s'.cache.Accountable

variable {n m : Nat} {s s' s'' t t' : Session κ} {respond : Responder κ} {held held' : List ClientId}
  {grip : List ValueId} {c c' : ClientId} {id : EntryId} {op : Operation κ} {w : Surroundings}

/-! ## Holding the same -/

theorem Alike.refl (s : Session κ) : s.Alike s :=
  ⟨fun _ => rfl, fun _ => rfl, rfl, rfl⟩

theorem Alike.symm (h : s.Alike s') : s'.Alike s :=
  ⟨fun name => (h.named name).symm, fun name => (h.handles name).symm, h.created_eq.symm,
    h.defaultObserver_eq.symm⟩

theorem Alike.trans (h : s.Alike s') (h' : s'.Alike s'') : s.Alike s'' :=
  ⟨fun name => (h'.named name).trans (h.named name), fun name => (h'.handles name).trans (h.handles name),
    h'.created_eq.trans h.created_eq, h'.defaultObserver_eq.trans h.defaultObserver_eq⟩

theorem Subsides.alike (h : s.Subsides s') : s.Alike s' where
  named := by
    intro name
    simp only [entryUnder, h.refs_eq, h.clients_eq]
  handles := by
    intro name
    rw [h.handles_eq]
  created_eq := h.created_eq
  defaultObserver_eq := h.defaultObserver_eq

theorem alike_adopt (s : Session κ) (op : Operation κ) (t : Transition κ) : s.Alike (s.adopt op t) :=
  ⟨fun _ => rfl, fun _ => rfl, rfl, rfl⟩

/-- A reference with a name has a client, and so an entry. -/
theorem Consistent.exists_entryUnder (h : s.Consistent s.inFlight held grip) {name : String}
    (hname : s.refs[name]? = some c) :
    ∃ id, (s.clients.get? c).map Client.entry = some id ∧ s.entryUnder name = some id := by
  have hpos := refsOf_pos hname
  obtain ⟨client, _, hclient, _⟩ := h.balanced.exists_client (c := c) (by omega)
  exact ⟨client.entry, by simp [hclient], by simp [entryUnder, hname, hclient]⟩

/-- A new client has no name yet. -/
theorem Consistent.alike_addClient (h : s.Consistent s.inFlight held grip) (id : EntryId) :
    s.Alike (s.addClient id).2 where
  named := by
    intro name
    show (s.refs[name]?.bind (s.clients.add { entry := id }).get?).map Client.entry = s.entryUnder name
    cases hname : s.refs[name]? with
    | none => simp [entryUnder, hname]
    | some d =>
      -- whoever has a name was there before
      obtain ⟨_, hentry, _⟩ := h.exists_entryUnder hname
      obtain ⟨client, hclient, _⟩ := Option.map_eq_some_iff.1 hentry
      have hne : s.clients.next ≠ d := Nat.ne_of_gt (s.clients.lt_next_of_get? hclient)
      simp [entryUnder, hname, Register.get?_add, hne]
  handles := fun _ => rfl
  created_eq := rfl
  defaultObserver_eq := rfl

/-- A new client has its entry. -/
theorem entry_of_added {clients clients' : Register Client}
    (h : clients' = clients.add { entry := id }) :
    (clients'.get? clients.next).map Client.entry = some id := by
  simp [h, Register.get?_add]

/-- A client that has only one copy of its reference, which an operation holds, has no name. -/
theorem Consistent.alike_parting (h : s.Consistent s.inFlight (c :: held) grip) (hm : s.Modest n)
    (hid : (s.clients.get? c).map Client.entry = some id) : s.Alike (s.parting c id) where
  named := by
    intro name
    show (s.refs[name]?.bind (s.clients.remove c).get?).map Client.entry = s.entryUnder name
    cases hname : s.refs[name]? with
    | none => simp [entryUnder, hname]
    | some d =>
      -- the only copy of the client is the one that the operation holds, so no name leads to it
      have hne : c ≠ d := by
        intro heq
        subst heq
        obtain ⟨client, hclient, _⟩ := Option.map_eq_some_iff.1 hid
        have hcopies := h.balanced.copies_eq c
        rw [copiesOf, Register.readout_of_some _ _ hclient, hm.single c client hclient,
          List.count_cons_self] at hcopies
        have hpos := refsOf_pos hname
        omega
      simp [entryUnder, hname, Register.get?_remove, hne]
  handles := fun _ => rfl
  created_eq := rfl
  defaultObserver_eq := rfl

/-- The books change while the cache stays as it is. -/
theorem Consistent.rebook {grip' : List ValueId} (h : s.Consistent s.inFlight held grip)
    (hbalanced : s'.Balanced s.cache.entries held' grip') (hframe : s.Frame s')
    (hcache : s'.cache = s.cache) : s'.Consistent s'.inFlight held' grip' :=
  (h.withBooks hframe hcache hbalanced).own

theorem SameEntry.congr {found found' : Option ClientId} (h : SameEntry s s' found found')
    (hclients : t.clients = s.clients) (hclients' : t'.clients = s'.clients) :
    SameEntry t t' found found' := by
  cases h with
  | neither => exact .neither
  | both left right => exact .both (hclients ▸ left) (hclients' ▸ right)

/-! ## Modest sessions -/

theorem Subsides.modest (h : s.Subsides s') (hm : s.Modest n) : s'.Modest n where
  present := h.present_eq.trans hm.present
  silent := h.reactions_eq.trans hm.silent
  offered := by
    rw [h.offered_eq]
    exact hm.offered
  queues := hm.queues.forget h.forgets
  single := by
    rw [h.clients_eq]
    exact hm.single
  sized := by
    -- a value that is left has the size that it was created with
    intro v value' hvalue'
    obtain ⟨value, hvalue, hsize⟩ := h.values v value' hvalue'
    rw [creation?, h.created_eq, hsize]
    exact hm.sized v value hvalue

/-- What a modest session is asked for is plain. -/
theorem Modest.plain (hm : s.Modest n) (h : s.Prepared op held grip) :
    (⟨s.cache, op⟩ : Asked κ).Plain n :=
  { h.ready with
    queues := hm.queues
    offers := by
      intro w hw
      rw [h.offered w hw]
      exact hm.offered }

theorem Modest.adopt (hm : s.Modest n) (hfits : (⟨s.cache, op⟩ : Asked κ).Fitting n) :
    (s.adopt op (s.cache.apply op)).Modest n :=
  { hm with queues := hfits.queuesUpTo_after }

theorem Modest.addClient (hm : s.Modest n) (id : EntryId) : (s.addClient id).2.Modest n :=
  { hm with
    single := by
      intro c client hclient
      change (s.clients.add { entry := id }).get? c = some client at hclient
      rw [Register.get?_add] at hclient
      split at hclient
      · rw [← Option.some.inj hclient]
      · exact hm.single c client hclient }

theorem Modest.parting (hm : s.Modest n) (c : ClientId) (id : EntryId) : (s.parting c id).Modest n :=
  { hm with
    single := by
      intro d client hclient
      change (s.clients.remove c).get? d = some client at hclient
      rw [Register.get?_remove] at hclient
      split at hclient
      · exact nomatch hclient
      · exact hm.single d client hclient }

theorem Consistent.modest_createValue (h : s.Consistent s.inFlight held grip) (hm : s.Modest n)
    (nv : NewValue) : (s.createValue nv).2.Modest n :=
  { hm with
    sized := by
      intro v value hvalue
      change (s.values.add _).get? v = some value at hvalue
      rw [Register.get?_add] at hvalue
      rw [h.balanced.creation?_createValue]
      -- the new value is the one whose line has just been written
      split at hvalue
      · rename_i hv
        rw [if_pos hv, ← Option.some.inj hvalue]
        rfl
      · rename_i hv
        rw [if_neg hv]
        exact hm.sized v value hvalue }

/-- The last copy of a reference is dropped: the cache is told so, and the entry is let go. -/
theorem Consistent.subsides_dropRef (h : s.Consistent s.inFlight (c :: held) grip) (hm : s.Modest n)
    (hrespond : Sound respond) (hid : (s.clients.get? c).map Client.entry = some id) :
    (s.parting c id).Prepared (.release s.surroundings id) held grip ∧
      ((s.parting c id).adopt (.release s.surroundings id)
        (s.cache.apply (.release s.surroundings id))).Subsides (s.dropRef respond c) := by
  obtain ⟨client, hclient, rfl⟩ := Option.map_eq_some_iff.1 hid
  exact h.subsides_dropLast hrespond hm.present hm.silent hclient (Nat.le_of_eq (hm.single c client hclient))

/-! ## Operations in both sessions -/

namespace Beside

/-- Both sessions take over what the same operation makes of their caches. -/
theorem adopt (op : Operation κ) (h : Abreast n m s s') (hop : s.Prepared op held grip)
    (hop' : s'.Prepared (op.under w) held' grip)
    (hmeasurable : (⟨s'.cache, op.under w⟩ : Asked κ).Measurable) (htrims : op.TrimsNothing)
    (hfound : ∀ s₀ k, op = .get s₀ k → s'.cache.cached.get? k = s.cache.cached.get? k) :
    Beside n m (s.adopt op (s.cache.apply op)) (s'.adopt (op.under w) (s'.cache.apply (op.under w)))
      held held' grip := by
  have hplain := h.modest.plain hop
  have hfits' := (h.modest'.plain hop').fitting hmeasurable
  exact
    { modest := h.modest.adopt (h.stacked.fitting hplain hfits')
      modest' := h.modest'.adopt hfits'
      stacked := h.stacked.apply hplain hfits' htrims hfound
      alike := (s.alike_adopt _ _).symm.trans (h.alike.trans (s'.alike_adopt _ _))
      consistent := hop.adopt.own
      consistent' := hop'.adopt.own
      accountable := hop'.ready.accountable_after hmeasurable }

variable {held₁ held₁' : List ClientId} {grip₁ : List ValueId}

/-- What is left to do changes nothing of it. -/
theorem subside (h : Beside n m s s' held held' grip) (hs : s.Subsides t) (hs' : s'.Subsides t')
    (ht : t.Consistent t.inFlight held₁ grip₁) (ht' : t'.Consistent t'.inFlight held₁' grip₁) :
    Beside n m t t' held₁ held₁' grip₁ where
  modest := hs.modest h.modest
  modest' := hs'.modest h.modest'
  stacked := h.stacked.forget hs.forgets hs'.forgets
  alike := hs.alike.symm.trans (h.alike.trans hs'.alike)
  consistent := ht
  consistent' := ht'
  accountable := h.accountable.forget hs'.forgets

/-! ## References -/

/-- Two references to the same entry are dropped. -/
theorem dropRef (h : Beside n m s s' (c :: held) (c' :: held') grip) (hrespond : Sound respond)
    (hid : (s.clients.get? c).map Client.entry = some id)
    (hid' : (s'.clients.get? c').map Client.entry = some id) :
    Beside n m (s.dropRef respond c) (s'.dropRef respond c') held held' grip := by
  obtain ⟨hop, hs⟩ := h.consistent.subsides_dropRef h.modest hrespond hid
  obtain ⟨hop', hs'⟩ := h.consistent'.subsides_dropRef h.modest' hrespond hid'
  -- the clients part on both sides, which no name notices
  have hparting : Abreast n m (s.parting c id) (s'.parting c' id) :=
    { modest := h.modest.parting c id
      modest' := h.modest'.parting c' id
      stacked := h.stacked
      alike := (h.consistent.alike_parting h.modest hid).symm.trans
        (h.alike.trans (h.consistent'.alike_parting h.modest' hid')) }
  -- letting go takes nothing in, so nothing is written
  have hmeasurable := hop'.ready.measurable h.accountable trivial
  have hadopted := adopt (.release s.surroundings id) hparting hop hop' hmeasurable trivial
    fun _ _ heq => nomatch heq
  exact hadopted.subside hs hs' (h.consistent.dropRef hrespond).1.own
    (h.consistent'.dropRef hrespond).1.own

theorem entryUnder_nameRef (s : Session κ) (name other : String) (c : ClientId) :
    ({ s with refs := s.refs.insert name c } : Session κ).entryUnder other
      = if name = other then (s.clients.get? c).map Client.entry else s.entryUnder other := by
  unfold entryUnder
  dsimp only
  by_cases hname : name = other
  · simp [hname]
  · simp [hname, Std.TreeMap.getElem?_insert]

theorem entryUnder_unnameRef (s : Session κ) (name other : String) :
    ({ s with refs := s.refs.erase name } : Session κ).entryUnder other
      = if name = other then none else s.entryUnder other := by
  unfold entryUnder
  dsimp only
  by_cases hname : name = other
  · simp [hname]
  · simp [hname, Std.TreeMap.getElem?_erase]

/-- What has a name in one session has it in the other one, and is a reference to the same entry. -/
theorem sameEntry_refs (h : Beside n m s s' held held' grip) (name : String) :
    SameEntry s s' s.refs[name]? s'.refs[name]? := by
  have hsame := h.alike.named name
  -- both sessions answer for the name in the same way, so one has it when the other does
  cases hname : s.refs[name]? with
  | none =>
    cases hname' : s'.refs[name]? with
    | none => exact .neither
    | some d' =>
      obtain ⟨_, _, hunder'⟩ := h.consistent'.exists_entryUnder hname'
      rw [hunder'] at hsame
      simp [entryUnder, hname] at hsame
  | some d =>
    obtain ⟨id, hd, hunder⟩ := h.consistent.exists_entryUnder hname
    cases hname' : s'.refs[name]? with
    | none =>
      rw [hunder] at hsame
      simp [entryUnder, hname'] at hsame
    | some d' =>
      obtain ⟨id', hd', hunder'⟩ := h.consistent'.exists_entryUnder hname'
      obtain rfl : id' = id := by simpa [hunder, hunder'] using hsame
      exact .both hd hd'

/-- Two references to the same entry get the same name, or are dropped. -/
theorem placeRef (h : Beside n m s s' (c :: held) (c' :: held') grip) (hrespond : Sound respond)
    (hid : (s.clients.get? c).map Client.entry = some id)
    (hid' : (s'.clients.get? c').map Client.entry = some id) (into : Option String) :
    Beside n m (s.placeRef respond c into) (s'.placeRef respond c' into) held held' grip := by
  cases into with
  | none => exact h.dropRef hrespond hid hid'
  | some name =>
    have hnamed : Beside n m { s with refs := s.refs.insert name c } { s' with refs := s'.refs.insert name c' }
        (s.refs[name]?.toList ++ held) (s'.refs[name]?.toList ++ held') grip :=
      { modest := { h.modest with }
        modest' := { h.modest' with }
        stacked := h.stacked
        alike :=
          { h.alike with
            named := by
              intro other
              rw [entryUnder_nameRef, entryUnder_nameRef, hid, hid', h.alike.named] }
        consistent := (h.consistent.nameRef name).own
        consistent' := (h.consistent'.nameRef name).own
        accountable := h.accountable }
    have hformer := h.sameEntry_refs name
    unfold Session.placeRef
    dsimp only
    -- the former references of the name, if there are any, are dropped
    generalize s.refs[name]? = former at hformer hnamed ⊢
    generalize s'.refs[name]? = former' at hformer hnamed ⊢
    cases hformer with
    | neither => exact hnamed
    | both hd hd' => exact hnamed.dropRef hrespond hd hd'

/-- Two references lose the same name. -/
theorem unnameRef (h : Beside n m s s' held held' grip) {name : String} (hname : s.refs[name]? = some c)
    (hname' : s'.refs[name]? = some c') :
    Beside n m { s with refs := s.refs.erase name } { s' with refs := s'.refs.erase name } (c :: held)
      (c' :: held') grip where
  modest := { h.modest with }
  modest' := { h.modest' with }
  stacked := h.stacked
  alike :=
    { h.alike with
      named := by
        intro other
        rw [entryUnder_unnameRef, entryUnder_unnameRef, h.alike.named] }
  consistent := (h.consistent.unnameRef hname).own
  consistent' := (h.consistent'.unnameRef hname').own
  accountable := h.accountable

/-! ## Handles -/

/-- Both sessions have created as many values. -/
theorem nextValue_eq (h : Beside n m s s' held held' grip) : s'.values.next = s.values.next := by
  rw [← h.consistent.balanced.created_length, ← h.consistent'.balanced.created_length,
    h.alike.created_eq]

/-- The same value is created in both sessions. -/
theorem createValue (h : Beside n m s s' held held' grip) (nv : NewValue) :
    Beside n m (s.createValue nv).2 (s'.createValue nv).2 held held' (s.values.next :: grip) where
  modest := h.consistent.modest_createValue h.modest nv
  modest' := h.consistent'.modest_createValue h.modest' nv
  stacked := h.stacked
  alike := { h.alike with created_eq := congrArg (nv :: ·) h.alike.created_eq }
  consistent :=
    h.consistent.rebook (h.consistent.balanced.createValue nv) ⟨rfl, rfl, rfl, rfl, rfl⟩ rfl
  consistent' := by
    have hcreated := h.consistent'.balanced.createValue nv
    rw [show (s'.createValue nv).1 = s.values.next from h.nextValue_eq] at hcreated
    exact h.consistent'.rebook hcreated ⟨rfl, rfl, rfl, rfl, rfl⟩ rfl
  accountable := h.accountable

/-- One handle more to a value that somebody holds in both sessions. -/
theorem addHandle (h : Beside n m s s' held held' grip) {v : ValueId}
    (hv : 0 < s.namesOf v + s.cache.entries.carriers v + grip.count v)
    (hv' : 0 < s'.namesOf v + s'.cache.entries.carriers v + grip.count v) :
    Beside n m (s.addHandle v) (s'.addHandle v) held held' (v :: grip) :=
  h.subside (s.subsides_addHandle v) (s'.subsides_addHandle v)
    (h.consistent.rebook (h.consistent.balanced.addHandle hv) ⟨rfl, rfl, rfl, rfl, rfl⟩ rfl)
    (h.consistent'.rebook (h.consistent'.balanced.addHandle hv') ⟨rfl, rfl, rfl, rfl, rfl⟩ rfl)

theorem dropHandle {v : ValueId} (h : Beside n m s s' held held' (v :: grip)) :
    Beside n m (s.dropHandle v) (s'.dropHandle v) held held' grip :=
  h.subside (s.subsides_dropHandle v) (s'.subsides_dropHandle v) h.consistent.dropHandle.own
    h.consistent'.dropHandle.own

/-- Two handles to the same value get the same name, or are dropped. -/
theorem placeHandle {v : ValueId} (h : Beside n m s s' held held' (v :: grip)) (into : Option String) :
    Beside n m (s.placeHandle v into) (s'.placeHandle v into) held held' grip := by
  cases into with
  | none => exact h.dropHandle
  | some name =>
    -- the name is given on both sides before the former handle goes
    have hnamed : Beside n m { s with handles := s.handles.insert name v }
        { s' with handles := s'.handles.insert name v } held held' (s.handles[name]?.toList ++ grip) :=
      { modest := { h.modest with }
        modest' := { h.modest' with }
        stacked := h.stacked
        alike :=
          { h.alike with
            handles := by
              intro other
              simp only [Std.TreeMap.getElem?_insert, h.alike.handles] }
        consistent :=
          h.consistent.rebook (h.consistent.balanced.nameHandle name) ⟨rfl, rfl, rfl, rfl, rfl⟩ rfl
        consistent' := by
          have hbalanced := h.consistent'.balanced.nameHandle name
          rw [h.alike.handles] at hbalanced
          exact h.consistent'.rebook hbalanced ⟨rfl, rfl, rfl, rfl, rfl⟩ rfl
        accountable := h.accountable }
    unfold Session.placeHandle
    dsimp only
    rw [h.alike.handles]
    generalize s.handles[name]? = former at hnamed ⊢
    cases former with
    | none => exact hnamed
    | some u => exact hnamed.dropHandle

/-- Two handles to the same value lose the same name. -/
theorem unnameHandle (h : Beside n m s s' held held' grip) {name : String} {v : ValueId}
    (hname : s.handles[name]? = some v) :
    Beside n m { s with handles := s.handles.erase name } { s' with handles := s'.handles.erase name }
      held held' (v :: grip) where
  modest := { h.modest with }
  modest' := { h.modest' with }
  stacked := h.stacked
  alike :=
    { h.alike with
      handles := by
        intro other
        simp only [Std.TreeMap.getElem?_erase, h.alike.handles] }
  consistent :=
    h.consistent.rebook (h.consistent.balanced.unnameHandle hname) ⟨rfl, rfl, rfl, rfl, rfl⟩ rfl
  consistent' :=
    h.consistent'.rebook (h.consistent'.balanced.unnameHandle ((h.alike.handles name).trans hname))
      ⟨rfl, rfl, rfl, rfl, rfl⟩ rfl
  accountable := h.accountable

/-! ## Values that are cached -/

/-- A value that is there in both sessions has the same size in both. -/
theorem size_eq (h : Beside n m s s' held held' grip) {v : ValueId}
    (hv : 0 < s.namesOf v + s.cache.entries.carriers v + grip.count v)
    (hv' : 0 < s'.namesOf v + s'.cache.entries.carriers v + grip.count v) :
    (s'.values.get? v).map Value.size = (s.values.get? v).map Value.size := by
  obtain ⟨value, hvalue⟩ := h.consistent.balanced.exists_value hv
  obtain ⟨value', hvalue'⟩ := h.consistent'.balanced.exists_value hv'
  have hsize := h.modest.sized v value hvalue
  have hsize' := h.modest'.sized v value' hvalue'
  rw [creation?, h.alike.created_eq, ← creation?, hsize] at hsize'
  rw [hvalue, hvalue', Option.map_some, Option.map_some, hsize']

/-- Both sessions take a value in, or both turn it down. -/
theorem store_fst (h : Beside n m s s' held held' grip) (k : κ) (v : ValueId) (size : Nat)
    (observer : Option String) : (s'.cache.store s'.surroundings k v size observer).1
      = (s.cache.store s.surroundings k v size observer).1 := by
  have hoffers : ∀ {s : Session κ} {n : Nat}, s.Modest n →
      (Operation.store s.surroundings k v size observer).Offers n := by
    intro s n hm w hw
    rw [← Option.some.inj hw]
    exact hm.offered
  have hx : (⟨s.cache, .store s.surroundings k v size observer⟩ : Asked κ).Plain n :=
    ⟨⟨h.consistent.owned, trivial, s.inFlight, h.consistent.kept, trivial⟩, h.modest.queues,
      hoffers h.modest⟩
  have hx' : (⟨s'.cache, .store s'.surroundings k v size observer⟩ : Asked κ).Plain m :=
    ⟨⟨h.consistent'.owned, trivial, s'.inFlight, h.consistent'.kept, trivial⟩, h.modest'.queues,
      hoffers h.modest'⟩
  exact h.stacked.store_fst hx hx'

/-- A value that somebody holds is cached, or turned down, in both sessions. -/
theorem storeValue (h : Beside n m s s' held held' grip) (hrespond : Sound respond) (k : κ) {v : ValueId}
    (hv : 0 < s.namesOf v + s.cache.entries.carriers v + grip.count v)
    (hv' : 0 < s'.namesOf v + s'.cache.entries.carriers v + grip.count v) (observer : Option String)
    (hroom : s'.cache.count < unlimited)
    (hwritten : (s'.storeValue respond k v observer).2.cache.counters.bytesWritten.number ≤ unlimited) :
    Beside n m (s.storeValue respond k v observer).2 (s'.storeValue respond k v observer).2
        ((s.storeValue respond k v observer).1.toList ++ held)
        ((s'.storeValue respond k v observer).1.toList ++ held') grip ∧
      SameEntry (s.storeValue respond k v observer).2 (s'.storeValue respond k v observer).2
        (s.storeValue respond k v observer).1 (s'.storeValue respond k v observer).1 := by
  have hsame := h.store_fst k v (((s.values.get? v).map Value.size).getD 0)
    (observer.or s.defaultObserver)
  unfold Session.storeValue at hwritten ⊢
  dsimp only at hwritten ⊢
  rw [h.size_eq hv hv', h.alike.defaultObserver_eq, hsame] at hwritten ⊢
  have hsize' := congrArg (Option.getD · 0) (h.size_eq hv hv')
  generalize hsize : ((s.values.get? v).map Value.size).getD 0 = size at hsame hwritten hsize' ⊢
  generalize observer.or s.defaultObserver = observer at hsame hwritten ⊢
  -- nothing is written after the operation
  have hmeasurable : ∀ {u t : Session κ}, u.cache = (s'.cache.store s'.surroundings k v size observer).2.cache →
      u.Subsides t → t.cache.counters.bytesWritten.number ≤ unlimited →
      (⟨s'.cache, .store s'.surroundings k v size observer⟩ : Asked κ).Measurable := by
    intro u t hu hs hle
    refine Asked.measurable_of_room h.accountable hroom ?_
    rw [hs.forgets.counters_eq, hu] at hle
    exact hle
  cases hfound : (s.cache.store s.surroundings k v size observer).1 with
  | none =>
    -- both turn it down, and no reference comes of it
    rw [hfound] at hsame hwritten
    have hop := h.consistent.prepared_rejected hfound
    have hop' := h.consistent'.prepared_rejected hsame
    have hs := hop.subsides respond h.modest.silent
    have hs' := hop'.subsides respond h.modest'.silent
    have hread : Abreast n m s.afterReading s'.afterReading :=
      { modest := { h.modest with }
        modest' := { h.modest' with }
        stacked := h.stacked
        alike := { h.alike with } }
    have hadopted := adopt (.store s.surroundings k v size observer) hread hop hop'
      (hmeasurable rfl hs' hwritten) trivial fun _ _ heq => nomatch heq
    exact ⟨hadopted.subside hs hs' (hop.finish hrespond).own (hop'.finish hrespond).own, .neither⟩
  | some id =>
    -- both take it in under the same number, for a new reference each
    rw [hfound] at hsame hwritten
    have hop := h.consistent.prepared_stored hv hsize.symm hfound
    have hop' := h.consistent'.prepared_stored hv' hsize'.symm hsame
    have hs := hop.subsides respond h.modest.silent
    have hs' := hop'.subsides respond h.modest'.silent
    have hbooks : ∀ {s : Session κ}, s.Subsides (s.afterReading.addHandle v) := by
      intro s
      exact { subsides_addHandle s v with }
    have hread : Abreast n m ((s.afterReading.addHandle v).addClient id).2
        ((s'.afterReading.addHandle v).addClient id).2 :=
      { modest := (hbooks.modest h.modest).addClient id
        modest' := (hbooks.modest h.modest').addClient id
        stacked := h.stacked
        alike := { (h.consistent.alike_addClient id).symm.trans
          (h.alike.trans (h.consistent'.alike_addClient id)) with } }
    have hadopted := adopt (.store s.surroundings k v size observer) hread hop hop'
      (hmeasurable rfl hs' hwritten) trivial fun _ _ heq => nomatch heq
    exact ⟨hadopted.subside hs hs' (hop.finish hrespond).own (hop'.finish hrespond).own,
      .both (entry_of_added hs.clients_eq) (entry_of_added hs'.clients_eq)⟩

end Beside

end Session

end RefCache
