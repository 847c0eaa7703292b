import RefCache.Message
import RefCache.Storage.Eviction
import Std.Data.TreeMap

/-! # A storage in memory

A `HeapStorage` keeps resources, byte strings under an id, in memory. Writing takes two phases: a `Writer`
fills a pending buffer, and only its commit makes the resource visible. Pending buffers belong to ids, and
what an id has pending can be purged at any time.

Reading a resource or touching it moves its timestamp to the present; looking whether it is there does
not. -/

namespace RefCache

/-- The bytes of a resource. -/
abbrev Bytes := List UInt8

/-- A resource with the time of its last access. -/
structure Resource where
  data : Bytes
  timestamp : Duration
deriving DecidableEq, Repr

/-- Resources in memory, and writes that have not been committed. -/
structure HeapStorage where
  name : String
  enabled : Bool := true
  committed : Std.TreeMap String Resource := ∅
  pending : Std.TreeMap String Bytes := ∅

/-- One who writes a resource; `closed` once it has committed or given up. -/
structure Writer where
  id : String
  closed : Bool := false
deriving DecidableEq, Repr

/-- A closed writer neither writes nor commits. -/
def Writer.checkOpen (w : Writer) : Except StorageError Unit :=
  if w.closed then .error (.alreadyCommitted w.id) else .ok ()

/-- An order in which resources are listed. Which one it is depends on the table that keeps them, and it may be
another one each time. -/
structure ListingOrder where
  arrange : List Listed → List Listed
  perm : ∀ listing, (arrange listing).Perm listing

/-- Resources as they are, that is in order of their ids. -/
def ListingOrder.byId : ListingOrder where
  arrange := id
  perm _ := .refl _

namespace HeapStorage

/-- The total size of the resources. -/
def size (s : HeapStorage) : Nat :=
  totalOf (fun e => e.2.data.length) s.committed.toList

/-- The resources, in order of their ids. A storage may list them in another order (`ListingOrder`). -/
def listing (s : HeapStorage) : List Listed :=
  s.committed.toList.map fun e => ⟨e.1, e.2.timestamp, e.2.data.length⟩

/-- Whether a resource is there. -/
def contains (s : HeapStorage) (id : String) : Bool :=
  s.committed.contains id

/-- Reads a resource, which is an access at the time `now`. -/
def read (s : HeapStorage) (now : Duration) (id : String) : Option Bytes × HeapStorage :=
  match s.committed[id]? with
  | none => (none, s)
  | some r =>
    (some r.data, { s with committed := s.committed.insert id { r with timestamp := now } })

/-- Accesses a resource without reading it; the first part says whether it is there. -/
def touch (s : HeapStorage) (now : Duration) (id : String) : Bool × HeapStorage :=
  let (data, s) := s.read now id
  (data.isSome, s)

/-- Removes a resource and tells how many bytes that freed. -/
def remove (s : HeapStorage) (id : String) : Nat × HeapStorage :=
  match s.committed[id]? with
  | none => (0, s)
  | some r => (r.data.length, { s with committed := s.committed.erase id })

/-- Removes everything, pending writes included. -/
def clear (s : HeapStorage) : HeapStorage :=
  { s with committed := ∅, pending := ∅ }

/-- Drops all pending writes; the first part counts them. -/
def purge (s : HeapStorage) : Nat × HeapStorage :=
  (s.pending.size, { s with pending := ∅ })

/-! ## Writing in two phases -/

/-- Begins to write a resource, with an empty pending buffer. -/
def insert (s : HeapStorage) (id : String) : Except StorageError (Writer × HeapStorage) :=
  if s.enabled then .ok ({ id := id }, { s with pending := s.pending.insert id [] })
  else .error (.disabled s.name)

/-- Writes data behind what is pending. -/
def write (s : HeapStorage) (w : Writer) (data : Bytes) : Except StorageError HeapStorage :=
  match w.checkOpen with
  | .error error => .error error
  | .ok _ =>
    match s.pending[w.id]? with
    | none => .error (.notFound w.id)
    | some buffer => .ok { s with pending := s.pending.insert w.id (buffer ++ data) }

/-- Makes what is pending for an open writer visible at the time `now`, and closes the writer. -/
def publish (s : HeapStorage) (now : Duration) (w : Writer) :
    Except StorageError (Bytes × Writer × HeapStorage) :=
  match s.pending[w.id]? with
  | none => .error (.notFound w.id)
  | some buffer =>
    .ok (buffer, { w with closed := true },
      { s with
        pending := s.pending.erase w.id
        committed := s.committed.insert w.id ⟨buffer, now⟩ })

/-- Drops what is pending, and closes the writer; the first part says whether there was anything. -/
def cleanUp (s : HeapStorage) (w : Writer) : Bool × Writer × HeapStorage :=
  if w.closed then (false, w, s)
  else
    (s.pending.contains w.id, { w with closed := true },
      { s with pending := s.pending.erase w.id })

/-- A description with the numbers of resources and of pending writes. -/
def describe (s : HeapStorage) : String :=
  Text.record "HeapDiskStorage"
    [("name", Text.quoted s.name),
      ("enabled", Text.truth s.enabled),
      ("committed", Text.number s.committed.size),
      ("pending", Text.number s.pending.size)]

/-- The storage as eviction meets it: it lists its resources in some order, and nothing fails. -/
def storage (order : ListingOrder) : Storage HeapStorage where
  entries s := .ok (order.arrange s.listing)
  remove s id :=
    let (bytes, s) := s.remove id
    (.ok bytes, s)

end HeapStorage

end RefCache
