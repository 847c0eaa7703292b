import RefCache.Storage.Faults

/-! # Sessions with a storage

A `StorageSession` is a storage in memory, possibly with faults, together with its clock and the writers
that are kept under names. Removing and evicting go through the faults; everything else does not. -/

namespace RefCache

/-- A storage, its clock and its writers. -/
structure StorageSession where
  storage : HeapStorage
  faults : Faults := {}
  clock : Clock := .manual 0
  writers : Std.TreeMap String Writer := ∅
  /-- What the log was told so far, latest first. -/
  messages : List Message := []

/-- Something asked of a storage. -/
inductive StorageRequest where
  | advance (time : Duration)
  | insert (id writer : String)
  | write (writer : String) (data : Bytes)
  | commit (writer : String)
  | cleanUp (writer : String)
  | dropWriter (writer : String)
  | read (id : String)
  | contains (id : String)
  | touch (id : String)
  | remove (id : String)
  | clear
  | purge
  /-- Evicts the oldest resources, which are listed in this order. -/
  | evict (target : Nat) (order : ListingOrder := .byId)

/-- What came of it. -/
inductive StorageOutcome where
  | done
  /-- A phase of writing succeeded. -/
  | accepted
  | truth (b : Bool)
  | bytes (n : Nat)
  | data (found : Option Bytes)
  /-- There is no writer of that name. -/
  | noWriter
  | failed (error : StorageError)
deriving DecidableEq, Repr

namespace StorageSession

/-- Adds a log message. -/
def log (s : StorageSession) (m : Message) : StorageSession :=
  { s with messages := m :: s.messages }

/-- The time, and the session after it has been read. -/
def readClock (s : StorageSession) : Duration × StorageSession :=
  (s.clock.now, { s with clock := s.clock.afterReading })

/-- The storage as seen through the faults. -/
def faulty (s : StorageSession) (order : ListingOrder) : Storage HeapStorage :=
  s.faults.apply (HeapStorage.storage order)

/-- Does something with the writer of a name. -/
def withWriter (s : StorageSession) (name : String)
    (go : Writer → StorageSession × StorageOutcome) : StorageSession × StorageOutcome :=
  match s.writers[name]? with
  | none => (s, .noWriter)
  | some w => go w

/-- Makes visible what an open writer has pending. The clock is read first, whatever there is. -/
def publish (s : StorageSession) (name : String) (w : Writer) : StorageSession × StorageOutcome :=
  let (now, s) := s.readClock
  match s.storage.publish now w with
  | .error error => (s, .failed error)
  | .ok (data, w, storage) =>
    ({ s with storage := storage, writers := s.writers.insert name w }, .data (some data))

/-- Evicts the oldest resources, and tells the log of it. -/
def evict (s : StorageSession) (target : Nat) (order : ListingOrder) : StorageSession × StorageOutcome :=
  let (result, storage) := (s.faulty order).evictOldest s.storage target
  let s := { s with storage := storage }
  match result with
  | .error error => (s, .failed error)
  | .ok none => (s, .bytes 0)
  | .ok (some eviction) =>
    (s.log (.freed s.storage.name eviction.freed eviction.left), .bytes eviction.freed)

/-- Performs a request. -/
def perform (s : StorageSession) : StorageRequest → StorageSession × StorageOutcome
  | .advance time => ({ s with clock := s.clock.advance time }, .done)
  | .insert id writer =>
    match s.storage.insert id with
    | .error error => (s, .failed error)
    | .ok (w, storage) =>
      ({ s with storage := storage, writers := s.writers.insert writer w }, .accepted)
  | .write writer data =>
    s.withWriter writer fun w =>
      match s.storage.write w data with
      | .error error => (s, .failed error)
      | .ok storage => ({ s with storage := storage }, .accepted)
  | .commit writer =>
    s.withWriter writer fun w =>
      match w.checkOpen with
      | .error error => (s, .failed error)
      | .ok _ => s.publish writer w
  | .cleanUp writer =>
    s.withWriter writer fun w =>
      let (found, w, storage) := s.storage.cleanUp w
      ({ s with storage := storage, writers := s.writers.insert writer w }, .truth found)
  | .dropWriter writer =>
    ({ s with writers := s.writers.erase writer }, .truth (s.writers.contains writer))
  | .read id =>
    let (now, s) := s.readClock
    let (data, storage) := s.storage.read now id
    ({ s with storage := storage }, .data data)
  | .contains id => (s, .truth (s.storage.contains id))
  | .touch id =>
    let (now, s) := s.readClock
    let (found, storage) := s.storage.touch now id
    ({ s with storage := storage }, .truth found)
  | .remove id =>
    -- a removal lists nothing; the storage is the one that it left, whatever came of it
    let (result, storage) := (s.faulty .byId).remove s.storage id
    let s := { s with storage := storage }
    match result with
    | .error error => (s, .failed error)
    | .ok bytes => (s, .bytes bytes)
  | .clear => ({ s with storage := s.storage.clear }, .done)
  | .purge =>
    let (purged, storage) := s.storage.purge
    let s := { s with storage := storage }
    (if purged > 0 then s.log (.purged s.storage.name purged) else s, .done)
  | .evict target order => s.evict target order

end StorageSession

end RefCache
