import Mathlib.Data.List.Induction
import RefCache.Proofs.Storage.Evictees
import RefCache.Proofs.Storage.Writers

/-!
# What a storage has published

A resource can be read if the last that became of its id is a commit, and what is read is what this commit
has published. Writers that begin, write or give up publish nothing, and neither does a purge. A request that
fails changes neither the storage nor its writers.

The `StorageEvent`s of a session are what its requests have published and removed. Those of a removal and of a
commit are told by the request and its outcome; an eviction removes the `evictees`.
-/

namespace RefCache

/-- Something that becomes of the resources of a storage. -/
inductive StorageEvent where
  | published (id : String) (data : Bytes)
  | removed (id : String)
  | cleared

namespace StorageEvent

/-- Publishing the data is the last thing that happened to the id. -/
def Published (id : String) (data : Bytes) (events : List StorageEvent) : Prop :=
  ∃ before after, events = before ++ .published id data :: after ∧
    (∀ other, .published id other ∉ after) ∧ .removed id ∉ after ∧ .cleared ∉ after

/-- What happens to other ids afterwards makes no difference. -/
theorem Published.concat {id : String} {data : Bytes} {events : List StorageEvent} {event : StorageEvent}
    (h : Published id data events) (hpublished : ∀ other, event ≠ .published id other)
    (hremoved : event ≠ .removed id) (hcleared : event ≠ .cleared) :
    Published id data (events ++ [event]) := by
  obtain ⟨before, after, rfl, hnone, hkept, hnever⟩ := h
  refine ⟨before, after ++ [event], by simp, fun other => ?_, ?_, ?_⟩ <;>
    rw [List.mem_append, List.mem_singleton, not_or]
  · exact ⟨hnone other, (hpublished other).symm⟩
  · exact ⟨hkept, hremoved.symm⟩
  · exact ⟨hnever, hcleared.symm⟩

/-- The data under an id after one more event. -/
def apply (id : String) (found : Option Bytes) : StorageEvent → Option Bytes
  | published other data => if other = id then some data else found
  | removed other => if other = id then none else found
  | cleared => none

/-- What happens to other ids makes no difference. -/
theorem foldl_apply_of_quiet {id : String} {events : List StorageEvent}
    (hpublished : ∀ data, .published id data ∉ events) (hremoved : .removed id ∉ events)
    (hcleared : .cleared ∉ events) (found : Option Bytes) : events.foldl (apply id) found = found := by
  induction events with
  | nil => rfl
  | cons event rest ih =>
    simp only [List.mem_cons, not_or] at hpublished hremoved hcleared
    have hfirst : apply id found event = found := by
      cases event with
      | published other data => exact if_neg fun (hid : other = id) => (hpublished data).1 (hid ▸ rfl)
      | removed other => exact if_neg fun (hid : other = id) => hremoved.1 (hid ▸ rfl)
      | cleared => exact absurd rfl hcleared.1
    rw [List.foldl_cons, hfirst]
    exact ih (fun data => (hpublished data).2) hremoved.2 hcleared.2

/-- Removing several ids leaves the data of the others. -/
theorem foldl_apply_removed (id : String) (ids : List String) (found : Option Bytes) :
    (ids.map removed).foldl (apply id) found = if id ∈ ids then none else found := by
  induction ids generalizing found with
  | nil => simp
  | cons other rest ih =>
    rw [List.map_cons, List.foldl_cons, ih, apply]
    by_cases hid : other = id
    · simp [hid]
    · simp [hid, Ne.symm hid]

/-- There are data under an id exactly when publishing them is the last thing that happened to it. -/
theorem foldl_apply_eq_some_iff (id : String) (data : Bytes) (events : List StorageEvent) :
    events.foldl (apply id) none = some data ↔ Published id data events := by
  constructor
  · -- the last event decides, or does not concern the id
    induction events using List.reverseRecOn with
    | nil => exact nofun
    | append_singleton before event ih =>
      rw [List.foldl_append, List.foldl_cons, List.foldl_nil]
      intro h
      cases event with
      | published other data' =>
        by_cases hid : other = id
        · rw [apply, if_pos hid, Option.some.injEq] at h
          exact ⟨before, [], by rw [hid, h], by simp⟩
        · rw [apply, if_neg hid] at h
          exact (ih h).concat (by simp [hid]) nofun nofun
      | removed other =>
        by_cases hid : other = id
        · rw [apply, if_pos hid] at h
          exact nomatch h
        · rw [apply, if_neg hid] at h
          exact (ih h).concat nofun (by simp [hid]) nofun
      | cleared => exact nomatch h
  · rintro ⟨before, after, rfl, hpublished, hremoved, hcleared⟩
    rw [List.foldl_append, List.foldl_cons, foldl_apply_of_quiet hpublished hremoved hcleared]
    exact if_pos rfl

end StorageEvent

namespace HeapStorage

/-- The data of a resource, without an access to it. -/
def dataAt (s : HeapStorage) (id : String) : Option Bytes :=
  s.committed[id]?.map Resource.data

theorem read_fst (s : HeapStorage) (now : Duration) (id : String) : (s.read now id).1 = s.dataAt id := by
  unfold read dataAt
  split <;> simp [*]

/-- An access moves the time of the resource, and nothing else. -/
theorem dataAt_read (s : HeapStorage) (now : Duration) (id other : String) :
    (s.read now id).2.dataAt other = s.dataAt other := by
  unfold read dataAt
  split
  · rfl
  · rename_i r hr
    by_cases hid : id = other
    · subst hid
      simp [hr]
    · simp [Std.TreeMap.getElem?_insert, hid]

end HeapStorage

/-- What writers do without publishing anything, and the purge. -/
inductive StorageRequest.Unpublished : StorageRequest → Prop where
  | insert (id name : String) : Unpublished (.insert id name)
  | write (name : String) (data : Bytes) : Unpublished (.write name data)
  | cleanUp (name : String) : Unpublished (.cleanUp name)
  | purge : Unpublished .purge

namespace StorageSession

/-- A storage in memory that has just been made. -/
def opened (name : String) (enabled : Bool) (clock : Clock) : StorageSession where
  storage := { name := name, enabled := enabled }
  clock := clock

/-- What a commit of such an outcome publishes under the id of its writer. -/
def publishedBy (id? : Option String) : StorageOutcome → List StorageEvent
  | .data (some data) => id?.toList.map (.published · data)
  | _ => []

/-- What a request publishes and removes. -/
def eventsOf (s : StorageSession) : StorageRequest → List StorageEvent
  | .commit name => publishedBy (s.target? (.commit name)) (s.perform (.commit name)).2
  | .remove id => [.removed id]
  | .clear => [.cleared]
  | .evict target order => (s.storage.evictees order target).map .removed
  | _ => []

/-- What several requests, the first of which is made of the session `s`, publish and remove. -/
def eventsOfAll (s : StorageSession) : List StorageRequest → List StorageEvent
  | [] => []
  | r :: rest => s.eventsOf r ++ (s.perform r).1.eventsOfAll rest

/-- Only commits make anything visible, and what fails changes nothing. -/
structure VisibleByCommit (s : StorageSession) (events : List StorageEvent) : Prop where
  /-- What is read is what was published last under the id, unless it was removed since. -/
  read_iff : ∀ id, ∃ found, (s.perform (.read id)).2 = .data found ∧
    ∀ data, found = some data ↔ StorageEvent.Published id data events
  /-- Whoever does not publish leaves all resources and their times of access alone. -/
  committed_eq : ∀ r : StorageRequest, r.Unpublished → (s.perform r).1.storage.committed = s.storage.committed
  /-- What fails leaves alone the resources, what is pending, and who may still write. -/
  failed_eq : ∀ r error, (s.perform r).2 = .failed error →
    (s.perform r).1.storage = s.storage ∧ (s.perform r).1.writers = s.writers

variable {s : StorageSession}

/-! ## Requests that go through the faults, where there are none -/

theorem perform_remove_of_faultless (h : s.faults = {}) (id : String) :
    s.perform (.remove id)
      = ({ s with storage := (s.storage.remove id).2 }, .bytes (s.storage.remove id).1) := by
  have hfaulty : s.faulty .byId = HeapStorage.storage .byId := by rw [faulty, h]; rfl
  unfold perform
  rw [hfaulty]
  rfl

theorem perform_evict_of_faultless (h : s.faults = {}) (target : Nat) (order : ListingOrder) :
    ∃ messages bytes, s.perform (.evict target order)
      = ({ s with storage := s.storage.without (s.storage.evictees order target), messages := messages },
        .bytes bytes) := by
  have hfaulty : s.faulty order = HeapStorage.storage order := by rw [faulty, h]; rfl
  obtain ⟨result, hresult⟩ := s.storage.evictOldest_storage order target
  have hperform : s.perform (.evict target order) = s.evict target order := rfl
  rw [hperform, evict, hfaulty, hresult]
  cases result with
  | none => exact ⟨_, _, rfl⟩
  | some eviction => exact ⟨_, _, rfl⟩

theorem outcome_read (s : StorageSession) (id : String) :
    (s.perform (.read id)).2 = .data (s.storage.dataAt id) :=
  congrArg StorageOutcome.data (s.storage.read_fst _ id)

/-! ## Requests that do not publish, and requests that fail -/

/-- A request that publishes nothing is about what is pending and about the writers, and if it fails, it leaves
them alone as well. -/
theorem perform_of_unpublished {r : StorageRequest} (hr : r.Unpublished) :
    ∃ pending writers messages, (s.perform r).1 = { s with
        storage := { s.storage with pending := pending }, writers := writers, messages := messages } ∧
      ∀ error, (s.perform r).2 = .failed error → pending = s.storage.pending ∧ writers = s.writers := by
  cases hr with
  -- these either put one thing in its place or find a reason not to
  | insert id name =>
    rcases s.perform_insert id name with heq | heq
    · exact ⟨_, _, _, congrArg Prod.fst heq, fun error hfailed => by simp [heq] at hfailed⟩
    · exact ⟨_, _, _, congrArg Prod.fst heq, fun _ _ => ⟨rfl, rfl⟩⟩
  | write name data =>
    rcases s.perform_write name data with ⟨_, _, _, _, heq⟩ | ⟨_, _, heq⟩
    · exact ⟨_, _, _, congrArg Prod.fst heq, fun error hfailed => by simp [heq] at hfailed⟩
    · exact ⟨_, _, _, congrArg Prod.fst heq, fun _ _ => ⟨rfl, rfl⟩⟩
  | cleanUp name =>
    rcases s.perform_cleanUp name with ⟨_, _, heq⟩ | ⟨_, _, heq⟩ | ⟨_, heq⟩ <;>
      exact ⟨_, _, _, congrArg Prod.fst heq, fun error hfailed => by simp [heq] at hfailed⟩
  | purge =>
    obtain ⟨_, heq⟩ := s.perform_purge
    exact ⟨_, _, _, heq, fun _ hfailed => nomatch hfailed⟩

theorem committed_perform {r : StorageRequest} (hr : r.Unpublished) :
    (s.perform r).1.storage.committed = s.storage.committed := by
  obtain ⟨_, _, _, heq, _⟩ := perform_of_unpublished (s := s) hr
  rw [heq]

theorem faults_perform (s : StorageSession) (r : StorageRequest) : (s.perform r).1.faults = s.faults := by
  -- what is not about the committed resources has nothing to do with faults
  have hkept : ∀ {r : StorageRequest}, r.Unpublished → (s.perform r).1.faults = s.faults := fun hr => by
    obtain ⟨_, _, _, heq, _⟩ := perform_of_unpublished (s := s) hr
    rw [heq]
  cases r with
  | insert id name => exact hkept (.insert id name)
  | write name data => exact hkept (.write name data)
  | cleanUp name => exact hkept (.cleanUp name)
  | purge => exact hkept .purge
  | commit name =>
    rcases s.perform_commit name with ⟨_, _, _, _, _, heq⟩ | ⟨_, _, _, heq, _⟩ <;> rw [heq]
  | remove id =>
    unfold perform
    dsimp only
    split <;> rfl
  | evict target =>
    unfold perform evict
    dsimp only
    split <;> rfl
  | _ => rfl

theorem perform_of_failed (h : s.faults = {}) {r : StorageRequest} {error : StorageError}
    (hfailed : (s.perform r).2 = .failed error) :
    (s.perform r).1.storage = s.storage ∧ (s.perform r).1.writers = s.writers := by
  -- an unpublishing request fails before it touches anything
  have hkept : r.Unpublished →
      (s.perform r).1.storage = s.storage ∧ (s.perform r).1.writers = s.writers := fun hr => by
    obtain ⟨pending, writers, _, heq, hsame⟩ := perform_of_unpublished (s := s) hr
    obtain ⟨rfl, rfl⟩ := hsame error hfailed
    rw [heq]
    exact ⟨rfl, rfl⟩
  cases r with
  | insert id name => exact hkept (.insert id name)
  | write name data => exact hkept (.write name data)
  | cleanUp name => exact hkept (.cleanUp name)
  | purge => exact hkept .purge
  | commit name =>
    rcases s.perform_commit name with ⟨_, _, _, _, _, heq⟩ | ⟨_, _, _, heq, _⟩
    · rw [heq] at hfailed
      exact nomatch hfailed
    · rw [heq]
      exact ⟨rfl, rfl⟩
  | remove id =>
    rw [perform_remove_of_faultless h] at hfailed
    exact nomatch hfailed
  | evict target order =>
    obtain ⟨_, _, heq⟩ := perform_evict_of_faultless h target order
    rw [heq] at hfailed
    exact nomatch hfailed
  | _ => exact nomatch hfailed

/-! ## The events keep up with the storage -/

theorem dataAt_perform_commit (s : StorageSession) (name id : String) :
    (s.perform (.commit name)).1.storage.dataAt id
      = (s.eventsOf (.commit name)).foldl (StorageEvent.apply id) (s.storage.dataAt id) := by
  rcases s.perform_commit name with ⟨w, buffer, hw, _, _, heq⟩ | ⟨clock, outcome, hfailed, heq, _⟩
  · have htarget : s.target? (.commit name) = some w.id := by rw [target?, hw, Option.map_some]
    have hevents : s.eventsOf (.commit name) = [.published w.id buffer] := by
      rw [eventsOf, heq, htarget]
      rfl
    rw [heq, hevents]
    show ((s.storage.committed.insert w.id ⟨buffer, s.clock.now⟩)[id]?).map Resource.data
      = if w.id = id then some buffer else s.storage.dataAt id
    rw [Std.TreeMap.getElem?_insert]
    -- only the id of the writer gets new data
    by_cases hid : w.id = id
    · simp [hid]
    · simp [hid, HeapStorage.dataAt]
  · have hevents : s.eventsOf (.commit name) = [] := by
      rw [eventsOf, heq, publishedBy]
      exact fun data => hfailed (some data)
    rw [heq, hevents]
    rfl

/-- After a request, there are the data that were there, unless it has published or removed some. -/
theorem dataAt_perform (h : s.faults = {}) (r : StorageRequest) (id : String) :
    (s.perform r).1.storage.dataAt id
      = (s.eventsOf r).foldl (StorageEvent.apply id) (s.storage.dataAt id) := by
  have hkept : ∀ {r : StorageRequest}, r.Unpublished →
      (s.perform r).1.storage.dataAt id = s.storage.dataAt id := fun hr => by
    rw [HeapStorage.dataAt, committed_perform hr, HeapStorage.dataAt]
  cases r with
  | commit name => exact s.dataAt_perform_commit name id
  | insert other name => exact hkept (.insert other name)
  | write name data => exact hkept (.write name data)
  | cleanUp name => exact hkept (.cleanUp name)
  | purge => exact hkept .purge
  | read other => exact s.storage.dataAt_read _ other id
  | touch other => exact s.storage.dataAt_read _ other id
  | remove other =>
    rw [perform_remove_of_faultless h]
    show ((s.storage.remove other).2.committed[id]?).map Resource.data = if other = id then none else _
    rw [HeapStorage.committed_remove]
    by_cases hid : other = id
    · simp [hid]
    · simp [hid, Ne.symm hid, HeapStorage.dataAt]
  | evict target order =>
    -- what an eviction takes out is what its events say, one removal for each
    obtain ⟨_, _, heq⟩ := perform_evict_of_faultless h target order
    have hevents : s.eventsOf (.evict target order) = (s.storage.evictees order target).map .removed := rfl
    rw [heq, hevents, StorageEvent.foldl_apply_removed]
    show ((s.storage.without _).committed[id]?).map Resource.data = _
    rw [HeapStorage.committed_without]
    split <;> rfl
  | clear => rfl
  | _ => rfl

theorem faults_performAll (s : StorageSession) (requests : List StorageRequest) :
    (s.performAll requests).faults = s.faults := by
  induction requests generalizing s with
  | nil => rfl
  | cons r rest ih => exact (ih (s.perform r).1).trans (s.faults_perform r)

/-- There are the data that were there in the beginning, unless some have been published or removed since. -/
theorem dataAt_performAll (h : s.faults = {}) (requests : List StorageRequest) (id : String) :
    (s.performAll requests).storage.dataAt id
      = (s.eventsOfAll requests).foldl (StorageEvent.apply id) (s.storage.dataAt id) := by
  induction requests generalizing s with
  | nil => rfl
  | cons r rest ih =>
    have hfirst := dataAt_perform h r id
    have hrest := ih ((s.faults_perform r).trans h)
    rw [eventsOfAll, List.foldl_append, ← hfirst, ← hrest]
    rfl

/-- Whatever is asked of a new storage, what can be read is what was published last and has not been removed
since; what is written otherwise does not show, and what fails changes nothing. -/
theorem visible_by_commit (name : String) (enabled : Bool) (clock : Clock)
    (requests : List StorageRequest) : ((opened name enabled clock).performAll requests).VisibleByCommit
      ((opened name enabled clock).eventsOfAll requests) := by
  have hfaults : ((opened name enabled clock).performAll requests).faults = {} :=
    faults_performAll _ requests
  have hdata := dataAt_performAll (s := opened name enabled clock) rfl requests
  refine ⟨fun id => ⟨_, outcome_read _ id, fun data => ?_⟩, fun _ => committed_perform,
    fun _ _ => perform_of_failed hfaults⟩
  rw [hdata]
  exact StorageEvent.foldl_apply_eq_some_iff id data _

end StorageSession

end RefCache
