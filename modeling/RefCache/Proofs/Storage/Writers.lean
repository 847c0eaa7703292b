import RefCache.Storage.Session

/-!
# Writers of one storage

Pending data belong to ids, while being closed belongs to the single writer. Writers of different ids
have nothing to do with each other. Writers of one id share what is pending for it: each of them can
reset it, add to it, publish it and discard it.

A `WritersLedger` is kept from the requests of a session and what came of them, without a look at the
storage. It says for every writer what that writer has written, and for every id what all its writers
together have pending. `shared_by_id` says that a storage does what the ledger says, so that a commit
publishes what is pending for the id, and that this is what the writer itself has written as long as no
other writer of the id came in between.
-/

namespace RefCache

/-- What has become of all that writers have written. -/
structure WritersLedger where
  /-- The id that the writer of a name writes. -/
  id? : String → Option String := fun _ => none
  /-- What the writer of a name has written, all in all. -/
  own : String → Bytes := fun _ => []
  /-- What has been written for an id by all of its writers since the last of them began, unless it has
  been published or discarded. -/
  pending : String → Option Bytes := fun _ => none
  /-- Another writer has begun to write the id of the writer of a name after that had written something,
  or has written something for the id since that began. -/
  disturbed : String → Bool := fun _ => false

namespace WritersLedger

/-- The ledger after one more request. -/
def note (l : WritersLedger) : StorageRequest → StorageOutcome → WritersLedger
  | .insert id name, .accepted =>
    { id? := fun m => if m = name then some id else l.id? m
      own := fun m => if m = name then [] else l.own m
      pending := fun i => if i = id then some [] else l.pending i
      disturbed := fun m =>
        if m = name then false
        else l.disturbed m || (l.id? m = some id && !(l.own m).isEmpty) }
  | .write name data, .accepted =>
    { l with
      own := fun m => if m = name then l.own m ++ data else l.own m
      pending := fun i =>
        if l.id? name = some i then (l.pending i).map (· ++ data) else l.pending i
      disturbed := fun m =>
        l.disturbed m || (m ≠ name && l.id? m = l.id? name && !data.isEmpty) }
  | .commit name, .data _ =>
    { l with pending := fun i => if l.id? name = some i then none else l.pending i }
  | .cleanUp name, .truth true =>
    { l with pending := fun i => if l.id? name = some i then none else l.pending i }
  | .dropWriter name, _ => { l with id? := fun m => if m = name then none else l.id? m }
  | .clear, _ => { l with pending := fun _ => none }
  | .purge, _ => { l with pending := fun _ => none }
  | _, _ => l

theorem note_write_of_failed (l : WritersLedger) (name : String) (data : Bytes)
    {outcome : StorageOutcome} (h : outcome ≠ .accepted) : l.note (.write name data) outcome = l := by
  cases outcome <;> simp_all [note]

theorem note_commit_of_failed (l : WritersLedger) (name : String) {outcome : StorageOutcome}
    (h : ∀ data, outcome ≠ .data data) : l.note (.commit name) outcome = l := by
  cases outcome <;> simp_all [note]

/-- The ledger after several requests, the first of which is made of the session `s`. -/
def noteAll (l : WritersLedger) (s : StorageSession) : List StorageRequest → WritersLedger
  | [] => l
  | r :: rest => (l.note r (s.perform r).2).noteAll (s.perform r).1 rest

end WritersLedger

/-! ## Eviction keeps what every removal keeps -/

namespace Storage

universe u v

variable {σ : Type u} {τ : Type v} {ops : Storage σ} (view : σ → τ)

theorem view_removeUntil (h : ∀ s id, view (ops.remove s id).2 = view s) (target : Nat)
    (listing : List Listed) (progress : Eviction) (s : σ) :
    view (ops.removeUntil target listing progress s).2 = view s := by
  induction listing generalizing progress s with
  | nil => rfl
  | cons e rest ih =>
    -- each removal leaves what is viewed alone
    have hremove := h s e.id
    rw [removeUntil]
    split
    · rfl
    · split
      · rename_i heq
        rw [heq] at hremove
        exact hremove
      · rename_i heq
        rw [heq] at hremove
        rw [ih, hremove]

theorem view_evictOldest (h : ∀ s id, view (ops.remove s id).2 = view s) (s : σ) (target : Nat) :
    view (ops.evictOldest s target).2 = view s := by
  unfold evictOldest
  split
  · rfl
  · dsimp only
    split
    · rfl
    · exact view_removeUntil view h _ _ _ _

end Storage

/-! ## What single requests leave alone -/

namespace HeapStorage

theorem pending_read (s : HeapStorage) (now : Duration) (id : String) :
    (s.read now id).2.pending = s.pending := by
  unfold read
  split <;> rfl

theorem pending_remove (s : HeapStorage) (id : String) : (s.remove id).2.pending = s.pending := by
  unfold remove
  split <;> rfl

end HeapStorage

theorem Faults.pending_remove (f : Faults) {order : ListingOrder} (s : HeapStorage) (id : String) :
    ((f.apply (HeapStorage.storage order)).remove s id).2.pending = s.pending := by
  unfold Faults.apply
  dsimp only
  split
  · exact s.pending_remove id
  · rfl
  · rfl

namespace StorageSession

/-- Nobody has begun to write anything. -/
structure NothingBegun (s : StorageSession) : Prop where
  pending_eq : ∀ id : String, s.storage.pending[id]? = none
  writers_eq : ∀ name : String, s.writers[name]? = none

/-- Performs requests one after the other. -/
def performAll (s : StorageSession) (requests : List StorageRequest) : StorageSession :=
  requests.foldl (fun s r => (s.perform r).1) s

/-- The id whose pending data a request of a writer is about. -/
def target? (s : StorageSession) : StorageRequest → Option String
  | .insert id _ => some id
  | .write name _ | .commit name | .cleanUp name => s.writers[name]?.map Writer.id
  | _ => none

/-- The storage has done what the ledger says. -/
structure Agrees (s : StorageSession) (l : WritersLedger) : Prop where
  id_eq : ∀ name : String, s.writers[name]?.map Writer.id = l.id? name
  pending_eq : ∀ id : String, s.storage.pending[id]? = l.pending id
  /-- What is pending for an undisturbed writer is its own. -/
  own_eq : ∀ name id data, l.id? name = some id → l.disturbed name = false →
    l.pending id = some data → data = l.own name

variable {s s' : StorageSession} {l : WritersLedger}

theorem NothingBegun.agrees (h : s.NothingBegun) : s.Agrees {} where
  id_eq name := by rw [h.writers_eq, Option.map_none]
  pending_eq := h.pending_eq
  own_eq _ _ _ hid := nomatch hid

/-- A request that concerns neither writers nor what is pending. -/
theorem Agrees.congr (h : s.Agrees l) (hwriters : s'.writers = s.writers)
    (hpending : s'.storage.pending = s.storage.pending) : s'.Agrees l where
  id_eq name := by rw [hwriters, h.id_eq]
  pending_eq id := by rw [hpending, h.pending_eq]
  own_eq := h.own_eq

/-! ## Requests of writers -/

/-- A writer begins, unless the storage is disabled. -/
theorem perform_insert (s : StorageSession) (id name : String) :
    s.perform (.insert id name) = ({ s with
        storage := { s.storage with pending := s.storage.pending.insert id [] }
        writers := s.writers.insert name { id := id } }, .accepted) ∨
      s.perform (.insert id name) = (s, .failed (.disabled s.storage.name)) := by
  cases henabled : s.storage.enabled with
  | true => exact .inl (by simp [perform, HeapStorage.insert, henabled])
  | false => exact .inr (by simp [perform, HeapStorage.insert, henabled])

/-- An open writer writes behind what its id has pending; nobody else writes anything. -/
theorem perform_write (s : StorageSession) (name : String) (data : Bytes) :
    (∃ w buffer, s.writers[name]? = some w ∧ s.storage.pending[w.id]? = some buffer ∧
      s.perform (.write name data) = ({ s with storage := { s.storage with
        pending := s.storage.pending.insert w.id (buffer ++ data) } }, .accepted)) ∨
    ∃ outcome, outcome ≠ .accepted ∧ s.perform (.write name data) = (s, outcome) := by
  cases hw : s.writers[name]? with
  | none => exact .inr ⟨.noWriter, nofun, by simp [perform, withWriter, hw]⟩
  | some w =>
    -- a writer writes while it is open and its id has something pending
    cases hclosed : w.closed with
    | true =>
      exact .inr ⟨.failed (.alreadyCommitted w.id), nofun,
        by simp [perform, withWriter, hw, HeapStorage.write, Writer.checkOpen, hclosed]⟩
    | false =>
      cases hbuffer : s.storage.pending[w.id]? with
      | none =>
        exact .inr ⟨.failed (.notFound w.id), nofun,
          by simp [perform, withWriter, hw, HeapStorage.write, Writer.checkOpen, hclosed, hbuffer]⟩
      | some buffer =>
        exact .inl ⟨w, buffer, rfl, hbuffer,
          by simp [perform, withWriter, hw, HeapStorage.write, Writer.checkOpen, hclosed, hbuffer]⟩

/-- An open writer publishes what its id has pending, at the time that the clock shows; nobody else
publishes anything. -/
theorem perform_commit (s : StorageSession) (name : String) :
    (∃ w buffer, s.writers[name]? = some w ∧ w.closed = false ∧
      s.storage.pending[w.id]? = some buffer ∧
      s.perform (.commit name) = ({ s with
        clock := s.clock.afterReading
        writers := s.writers.insert name { w with closed := true }
        storage := { s.storage with
          pending := s.storage.pending.erase w.id
          committed := s.storage.committed.insert w.id ⟨buffer, s.clock.now⟩ } },
        .data (some buffer))) ∨
    (∃ clock outcome, (∀ data, outcome ≠ .data data) ∧
      s.perform (.commit name) = ({ s with clock := clock }, outcome) ∧
      ∀ w, s.writers[name]? = some w → w.closed = false → s.storage.pending[w.id]? = none) := by
  cases hw : s.writers[name]? with
  | none => exact .inr ⟨s.clock, .noWriter, nofun, by simp [perform, withWriter, hw], nofun⟩
  | some w =>
    -- a writer publishes while it is open and its id has something pending
    cases hclosed : w.closed with
    | true =>
      -- the clock is not read for a closed writer
      refine .inr ⟨s.clock, .failed (.alreadyCommitted w.id), nofun,
        by simp [perform, withWriter, hw, Writer.checkOpen, hclosed], ?_⟩
      simp [hclosed]
    | false =>
      cases hbuffer : s.storage.pending[w.id]? with
      | none =>
        refine .inr ⟨s.clock.afterReading, .failed (.notFound w.id), nofun,
          by simp [perform, withWriter, hw, Writer.checkOpen, hclosed, publish, readClock,
            HeapStorage.publish, hbuffer], ?_⟩
        rintro _ ⟨⟩ _
        exact hbuffer
      | some buffer =>
        exact .inl ⟨w, buffer, rfl, hclosed, hbuffer,
          by simp [perform, withWriter, hw, Writer.checkOpen, hclosed, publish, readClock,
            HeapStorage.publish, hbuffer]⟩

/-- An open writer gives up, and what its id has pending is gone; a closed one changes nothing. -/
theorem perform_cleanUp (s : StorageSession) (name : String) :
    (∃ w, s.writers[name]? = some w ∧ s.perform (.cleanUp name) = ({ s with
        writers := s.writers.insert name { w with closed := true }
        storage := { s.storage with pending := s.storage.pending.erase w.id } },
        .truth (s.storage.pending.contains w.id))) ∨
    (∃ w, s.writers[name]? = some w ∧ s.perform (.cleanUp name)
      = ({ s with writers := s.writers.insert name w }, .truth false)) ∨
    s.writers[name]? = none ∧ s.perform (.cleanUp name) = (s, .noWriter) := by
  cases hw : s.writers[name]? with
  | none => exact .inr (.inr ⟨rfl, by simp [perform, withWriter, hw]⟩)
  | some w =>
    cases hclosed : w.closed with
    | true =>
      exact .inr (.inl ⟨w, rfl, by simp [perform, withWriter, hw, HeapStorage.cleanUp, hclosed]⟩)
    | false =>
      exact .inl ⟨w, rfl, by simp [perform, withWriter, hw, HeapStorage.cleanUp, hclosed]⟩

/-! ## Requests that no writer makes -/

theorem perform_purge (s : StorageSession) :
    ∃ messages, (s.perform .purge).1
      = { s with storage := { s.storage with pending := ∅ }, messages := messages } := by
  unfold perform HeapStorage.purge
  dsimp only
  split
  · exact ⟨_, rfl⟩
  · exact ⟨_, rfl⟩

private theorem perform_remove (s : StorageSession) (id : String) :
    (s.perform (.remove id)).1 = { s with storage := ((s.faulty .byId).remove s.storage id).2 } := by
  unfold perform
  dsimp only
  split
  · rfl
  · rfl

private theorem perform_evict (s : StorageSession) (target : Nat) (order : ListingOrder) :
    ∃ messages, (s.perform (.evict target order)).1
      = { s with storage := ((s.faulty order).evictOldest s.storage target).2, messages := messages } := by
  unfold perform evict
  dsimp only
  split
  · exact ⟨_, rfl⟩
  · exact ⟨_, rfl⟩
  · exact ⟨_, rfl⟩

/-! ## The ledger keeps up with the storage -/

/-- A writer that is replaced by one of the same id leaves the ids of all writers as they were. -/
private theorem id_insert (h : s.Agrees l) {name : String} {w w' : Writer}
    (hw : s.writers[name]? = some w) (hid : w'.id = w.id) (m : String) :
    (s.writers.insert name w')[m]?.map Writer.id = l.id? m := by
  rw [Std.TreeMap.getElem?_insert, ← h.id_eq]
  by_cases hm : name = m
  · simp [hm ▸ hw, hm, hid]
  · simp [hm]

/-- Nothing is pending any more for the id of a writer. -/
private theorem pending_erase (h : s.Agrees l) {name : String} {w : Writer}
    (hw : s.writers[name]? = some w) (i : String) :
    (s.storage.pending.erase w.id)[i]? = if l.id? name = some i then none else l.pending i := by
  have hid : l.id? name = some w.id := by rw [← h.id_eq, hw, Option.map_some]
  simp [Std.TreeMap.getElem?_erase, hid, h.pending_eq]

/-- What is still pending once the id of a writer has nothing pending any more is as it was. -/
private theorem own_erase (h : s.Agrees l) (name m i : String) (data : Bytes)
    (hid : l.id? m = some i) (hquiet : l.disturbed m = false)
    (hdata : (if l.id? name = some i then none else l.pending i) = some data) : data = l.own m := by
  split at hdata
  · exact nomatch hdata
  · exact h.own_eq m i data hid hquiet hdata

theorem Agrees.insert (h : s.Agrees l) (id name : String) :
    (s.perform (.insert id name)).1.Agrees
      (l.note (.insert id name) (s.perform (.insert id name)).2) := by
  rcases s.perform_insert id name with heq | heq
  · rw [heq]
    refine ⟨fun m => ?_, fun i => ?_, fun m i data hid hquiet hdata => ?_⟩
    · -- the writer gets its id anew, with nothing written and nobody disturbing it
      by_cases hm : m = name
      · simp [WritersLedger.note, hm]
      · simp [WritersLedger.note, Std.TreeMap.getElem?_insert, hm, Ne.symm hm, h.id_eq]
    · by_cases hi : i = id
      · simp [WritersLedger.note, hi]
      · simp [WritersLedger.note, Std.TreeMap.getElem?_insert, hi, Ne.symm hi, h.pending_eq]
    · simp only [WritersLedger.note] at hid hquiet hdata ⊢
      by_cases hm : m = name
      · simp_all
      · simp only [hm, if_false, Bool.or_eq_false_iff] at hid hquiet ⊢
        by_cases hi : i = id
        · -- another writer of the same id is undisturbed only if it has written nothing yet
          have hempty : l.own m = [] := by simpa [hid, hi] using hquiet.2
          simp_all
        · rw [if_neg hi] at hdata
          exact h.own_eq m i data hid hquiet.1 hdata
  · rw [heq]
    exact h

theorem Agrees.write (h : s.Agrees l) (name : String) (data : Bytes) :
    (s.perform (.write name data)).1.Agrees
      (l.note (.write name data) (s.perform (.write name data)).2) := by
  rcases s.perform_write name data with ⟨w, buffer, hw, hbuffer, heq⟩ | ⟨outcome, hfailed, heq⟩
  · have hname : l.id? name = some w.id := by rw [← h.id_eq, hw, Option.map_some]
    rw [h.pending_eq] at hbuffer
    rw [heq]
    refine ⟨h.id_eq, fun i => ?_, fun m i more hid hquiet hmore => ?_⟩
    · -- what is pending is one buffer for an id, whoever writes
      by_cases hi : w.id = i
      · simp [WritersLedger.note, hname, ← hi, hbuffer]
      · simp [WritersLedger.note, Std.TreeMap.getElem?_insert, hname, hi, h.pending_eq]
    · simp only [WritersLedger.note, hname, Bool.or_eq_false_iff] at hid hquiet hmore ⊢
      by_cases hi : w.id = i
      · -- only the writer itself can have added something without disturbing anybody
        subst hi
        rw [if_pos rfl, hbuffer, Option.map_some, Option.some.injEq] at hmore
        have hown := h.own_eq m w.id buffer hid hquiet.1 hbuffer
        by_cases hm : m = name
        · rw [if_pos hm, ← hown, hmore]
        · have hempty : data = [] := by simpa [hm, hid] using hquiet.2
          rw [if_neg hm, ← hown, ← hmore, hempty, List.append_nil]
      · -- the writer has another id, so it has another name
        have hm : m ≠ name := fun heq => hi (Option.some.inj (hname.symm.trans (heq ▸ hid)))
        rw [if_neg (by simpa using hi)] at hmore
        rw [if_neg hm]
        exact h.own_eq m i more hid hquiet.1 hmore
  · rw [heq, WritersLedger.note_write_of_failed _ _ _ hfailed]
    exact h

theorem Agrees.commit (h : s.Agrees l) (name : String) :
    (s.perform (.commit name)).1.Agrees (l.note (.commit name) (s.perform (.commit name)).2) := by
  rcases s.perform_commit name with ⟨w, buffer, hw, _, _, heq⟩ | ⟨clock, outcome, hfailed, heq, _⟩
  · rw [heq]
    exact ⟨id_insert h hw rfl, pending_erase h hw, own_erase h name⟩
  · rw [heq, WritersLedger.note_commit_of_failed _ _ hfailed]
    exact h.congr rfl rfl

theorem Agrees.cleanUp (h : s.Agrees l) (name : String) :
    (s.perform (.cleanUp name)).1.Agrees
      (l.note (.cleanUp name) (s.perform (.cleanUp name)).2) := by
  rcases s.perform_cleanUp name with ⟨w, hw, heq⟩ | ⟨w, hw, heq⟩ | ⟨hw, heq⟩
  · rw [heq]
    -- what is pending goes for every writer of the id
    have hgone := pending_erase h hw
    cases hcontains : s.storage.pending.contains w.id with
    | true => exact ⟨id_insert h hw rfl, hgone, own_erase h name⟩
    | false =>
      -- nothing was pending, so nothing is discarded
      have hnone : s.storage.pending[w.id]? = none := by
        rw [Std.TreeMap.contains_eq_isSome_getElem?] at hcontains
        exact Option.isNone_iff_eq_none.1 (by rw [← Option.not_isSome, hcontains]; rfl)
      refine ⟨id_insert h hw rfl, fun i => ?_, h.own_eq⟩
      show (s.storage.pending.erase w.id)[i]? = l.pending i
      rw [Std.TreeMap.getElem?_erase, ← h.pending_eq]
      split
      · rename_i hid
        rw [← Std.compare_eq_iff_eq.1 hid, hnone]
      · rfl
  · rw [heq]
    exact ⟨id_insert h hw rfl, h.pending_eq, h.own_eq⟩
  · rw [heq]
    exact h

/-- Nothing is pending any more. -/
private theorem Agrees.discardAll (h : s.Agrees l) (hwriters : s'.writers = s.writers)
    (hpending : s'.storage.pending = ∅) : s'.Agrees { l with pending := fun _ => none } where
  id_eq name := by rw [hwriters, h.id_eq]
  pending_eq id := by rw [hpending, Std.TreeMap.getElem?_emptyc]
  own_eq _ _ _ _ _ hdata := nomatch hdata

/-- The ledger keeps up with every request. -/
theorem Agrees.perform (h : s.Agrees l) (r : StorageRequest) :
    (s.perform r).1.Agrees (l.note r (s.perform r).2) := by
  cases r with
  | insert id name => exact h.insert id name
  | write name data => exact h.write name data
  | commit name => exact h.commit name
  | cleanUp name => exact h.cleanUp name
  | advance time => exact h.congr rfl rfl
  | contains id => exact h
  | read id => exact h.congr rfl (s.storage.pending_read _ id)
  | touch id => exact h.congr rfl (s.storage.pending_read _ id)
  | clear => exact h.discardAll rfl rfl
  | purge =>
    obtain ⟨messages, heq⟩ := s.perform_purge
    rw [heq]
    exact h.discardAll rfl rfl
  | dropWriter name =>
    refine ⟨fun m => ?_, h.pending_eq, fun m i data hid hquiet hdata => ?_⟩
    · -- a writer that is gone has no id, and the others keep theirs
      show (s.writers.erase name)[m]?.map Writer.id = if m = name then none else l.id? m
      by_cases hm : m = name
      · simp [hm]
      · simp [Std.TreeMap.getElem?_erase, hm, Ne.symm hm, h.id_eq]
    · simp only [WritersLedger.note] at hid hquiet hdata ⊢
      split at hid
      · exact nomatch hid
      · exact h.own_eq m i data hid hquiet hdata
  | remove id =>
    rw [perform_remove]
    exact h.congr rfl (s.faults.pending_remove s.storage id)
  | evict target order =>
    obtain ⟨messages, heq⟩ := s.perform_evict target order
    rw [heq]
    exact h.congr rfl
      (Storage.view_evictOldest HeapStorage.pending s.faults.pending_remove s.storage target)

theorem Agrees.performAll (h : s.Agrees l) (requests : List StorageRequest) :
    (s.performAll requests).Agrees (l.noteAll s requests) := by
  induction requests generalizing s l with
  | nil => exact h
  | cons r rest ih => exact ih (h.perform r)

/-! ## Writers of one id share what is pending -/

/-- What a writer does concerns its own id only, whether it succeeds or not. -/
theorem perform_confined (s : StorageSession) {r : StorageRequest} {id other : String}
    (htarget : s.target? r = some id) (hother : other ≠ id) :
    (s.perform r).1.storage.pending[other]? = s.storage.pending[other]? ∧
      (s.perform r).1.storage.committed[other]? = s.storage.committed[other]? := by
  -- the writer belongs to the id that the request is about, which is not the other one
  have hwriter : ∀ {name : String} {w : Writer}, s.writers[name]?.map Writer.id = some id →
      s.writers[name]? = some w → w.id ≠ other := by
    intro name w htarget hw
    rw [hw, Option.map_some, Option.some.injEq] at htarget
    rw [htarget]
    exact Ne.symm hother
  cases r with
  | insert id' name =>
    cases htarget
    rcases s.perform_insert id name with heq | heq
    · rw [heq]
      simp [Std.TreeMap.getElem?_insert, Ne.symm hother]
    · rw [heq]
      exact ⟨rfl, rfl⟩
  | write name data =>
    rcases s.perform_write name data with ⟨w, buffer, hw, _, heq⟩ | ⟨outcome, _, heq⟩
    · rw [heq]
      simp [Std.TreeMap.getElem?_insert, hwriter htarget hw]
    · rw [heq]
      exact ⟨rfl, rfl⟩
  | commit name =>
    rcases s.perform_commit name with ⟨w, buffer, hw, _, _, heq⟩ | ⟨clock, outcome, _, heq, _⟩
    · rw [heq]
      simp [Std.TreeMap.getElem?_insert, Std.TreeMap.getElem?_erase, hwriter htarget hw]
    · rw [heq]
      exact ⟨rfl, rfl⟩
  | cleanUp name =>
    rcases s.perform_cleanUp name with ⟨w, hw, heq⟩ | ⟨w, _, heq⟩ | ⟨_, heq⟩
    · rw [heq]
      simp [Std.TreeMap.getElem?_erase, hwriter htarget hw]
    · rw [heq]
      exact ⟨rfl, rfl⟩
    · rw [heq]
      exact ⟨rfl, rfl⟩
  | _ => exact nomatch htarget

/-- Writers of one id share what is pending for it, and writers of different ids have nothing to do with
each other. -/
structure SharedById (s : StorageSession) (l : WritersLedger) : Prop where
  /-- What is pending for an id is what all its writers have written since the last of them began. -/
  pending_eq : ∀ id : String, s.storage.pending[id]? = l.pending id
  /-- An open writer can commit as long as something is pending for its id. -/
  commit_iff : ∀ (name : String) (w : Writer), s.writers[name]? = some w → w.closed = false →
    ((∃ data, (s.perform (.commit name)).2 = .data (some data)) ↔ (l.pending w.id).isSome = true)
  /-- A commit publishes all that is pending for the id of the writer, which is what the writer itself
  has written if no other one has disturbed it. -/
  commit_eq : ∀ (name : String) (data : Bytes), (s.perform (.commit name)).2 = .data (some data) →
    ∃ id, l.id? name = some id ∧ l.pending id = some data ∧
      (s.perform (.commit name)).1.storage.committed[id]? = some ⟨data, s.clock.now⟩ ∧
      (l.disturbed name = false → data = l.own name)
  /-- Whatever a writer does leaves alone what is pending or published for other ids. -/
  confined : ∀ (r : StorageRequest) (id other : String), s.target? r = some id → other ≠ id →
    (s.perform r).1.storage.pending[other]? = s.storage.pending[other]? ∧
      (s.perform r).1.storage.committed[other]? = s.storage.committed[other]?

theorem Agrees.commit_iff (h : s.Agrees l) {name : String} {w : Writer}
    (hw : s.writers[name]? = some w) (hopen : w.closed = false) :
    (∃ data, (s.perform (.commit name)).2 = .data (some data)) ↔ (l.pending w.id).isSome = true := by
  rw [← h.pending_eq]
  rcases s.perform_commit name with ⟨w', buffer, hw', _, hbuffer, heq⟩ | ⟨_, _, hfailed, heq, hnone⟩
  · rw [hw, Option.some.injEq] at hw'
    rw [heq, hw', hbuffer]
    simp
  · rw [heq, hnone w hw hopen]
    simp [hfailed]

theorem Agrees.commit_eq (h : s.Agrees l) {name : String} {data : Bytes}
    (hdata : (s.perform (.commit name)).2 = .data (some data)) :
    ∃ id, l.id? name = some id ∧ l.pending id = some data ∧
      (s.perform (.commit name)).1.storage.committed[id]? = some ⟨data, s.clock.now⟩ ∧
      (l.disturbed name = false → data = l.own name) := by
  rcases s.perform_commit name with ⟨w, buffer, hw, _, hbuffer, heq⟩ | ⟨_, _, hfailed, heq, _⟩
  · have hid : l.id? name = some w.id := by rw [← h.id_eq, hw, Option.map_some]
    rw [heq] at hdata ⊢
    cases hdata
    rw [h.pending_eq] at hbuffer
    exact ⟨w.id, hid, hbuffer, by simp, fun hquiet => h.own_eq name w.id data hid hquiet hbuffer⟩
  · rw [heq] at hdata
    exact absurd hdata (hfailed _)

/-- Whatever is asked of a storage, its writers share what is pending for their ids: a commit publishes
what all writers of the id have written since the last of them began. -/
theorem shared_by_id (s : StorageSession) (h : s.NothingBegun) (requests : List StorageRequest) :
    (s.performAll requests).SharedById (WritersLedger.noteAll {} s requests) := by
  have hagrees := h.agrees.performAll requests
  exact ⟨hagrees.pending_eq, fun _ _ => hagrees.commit_iff, fun _ _ => hagrees.commit_eq,
    fun _ _ _ => perform_confined _⟩

/-- Two writers of one id, the second of which begins after the first has written, and one of another
id. -/
def twoOfOneId : List StorageRequest :=
  [.insert "a" "first", .write "first" [1], .insert "a" "second", .write "second" [2],
    .insert "b" "other", .write "other" [3]]

/-- A storage in which nobody has begun to write anything. -/
def fresh : StorageSession where
  storage := { name := "heap" }

/-- The first writer publishes what the second has written, and the second can publish nothing then. -/
theorem shared_by_id_twoOfOneId :
    (fresh.performAll twoOfOneId).SharedById (WritersLedger.noteAll {} fresh twoOfOneId) ∧
      ((fresh.performAll twoOfOneId).perform (.commit "first")).2 = .data (some [2]) ∧
      (WritersLedger.noteAll {} fresh twoOfOneId).own "first" = [1] ∧
      ((fresh.performAll (twoOfOneId ++ [.commit "first"])).perform (.commit "second")).2
        = .failed (.notFound "a") ∧
      ((fresh.performAll twoOfOneId).perform (.commit "other")).2 = .data (some [3]) := by
  have hfresh : fresh.NothingBegun :=
    ⟨fun _ => Std.TreeMap.getElem?_emptyc, fun _ => Std.TreeMap.getElem?_emptyc⟩
  exact ⟨shared_by_id fresh hfresh twoOfOneId, by decide +kernel, by decide +kernel,
    by decide +kernel, by decide +kernel⟩

end StorageSession

end RefCache
