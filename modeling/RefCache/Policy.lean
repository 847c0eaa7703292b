import RefCache.Policy.Adaptive

/-! # Eviction policies

A policy keeps the exclusive entries of a cache and says which of them to evict. There are two: a single
queue in order of admission (`lru`), and the adaptive pair of pools. A `PolicyCall` is the record of one
thing a cache asked of its policy. -/

namespace RefCache

universe u

/-- The keeper of the exclusive entries of a cache. -/
inductive Policy (κ : Type u) [Key κ] where
  | lru (queue : Pool κ)
  | adaptive (pools : Adaptive κ)

/-- Something a cache asked of its policy, and what came of it. -/
inductive PolicyCall (κ : Type u) where
  | enqueue (key : κ) (accesses : Nat)
  | remove (found : Bool)
  | removeAll (removed : List κ)
  | evict (maxCount maxSize : Nat) (evicted : List κ)
  | trim (target : Nat) (evicted : List κ)
  | probe
  | onMiss
  | initialAccesses (n : Nat)
deriving Repr

namespace Policy

variable {κ : Type u} [Key κ]

/-- A single queue, which remembers no ghosts. -/
def newLru : Policy κ :=
  .lru (.empty 0)

/-- The adaptive policy under the given tuning. -/
def newAdaptive (t : Tuning) : Policy κ :=
  .adaptive (.ofTuning t)

/-- The short name of the policy. -/
def name : Policy κ → String
  | lru _ => "LRU"
  | adaptive _ => "ARC"

/-- The pools, in the order in which they are emptied. -/
def pools : Policy κ → List (Pool κ)
  | lru queue => [queue]
  | adaptive a => [a.lfu, a.mfu]

/-- The exclusive entries, pool by pool, oldest admission first. -/
def ids (p : Policy κ) : List EntryId :=
  p.pools.flatMap Pool.ids

/-- The number of exclusive entries. -/
def count : Policy κ → Nat
  | lru queue => queue.count
  | adaptive a => a.lfu.count + a.mfu.count

/-- The total size of the exclusive entries. -/
def size : Policy κ → Nat
  | lru queue => queue.size
  | adaptive a => a.lfu.size + a.mfu.size

/-- The total size of the exclusive entries as machine words add it up. -/
def sizeInBytes : Policy κ → UInt64
  | lru queue => queue.sizeInBytes
  | adaptive a => a.lfu.sizeInBytes + a.mfu.sizeInBytes

theorem sizeInBytes_eq (p : Policy κ) : p.sizeInBytes = UInt64.ofNat p.size := by
  cases p with
  | lru queue => exact queue.entries.sizeInBytes_eq
  | adaptive a =>
    rw [sizeInBytes, size, UInt64.ofNat_add]
    exact congr (congrArg _ a.lfu.entries.sizeInBytes_eq) a.mfu.entries.sizeInBytes_eq

/-- Whether there is an exclusive entry under a key. -/
def contains : Policy κ → κ → Bool
  | lru queue, k => queue.contains k
  | adaptive a, k => a.lfu.contains k || a.mfu.contains k

/-- Whether an entry is kept under a key. -/
def holds (p : Policy κ) (k : κ) (id : EntryId) : Bool :=
  p.pools.any fun pool => pool.entries.get? k = some id

/-- Takes in an entry. -/
def enqueue (p : Policy κ) (id : EntryId) (e : Entry κ) : Policy κ :=
  match p with
  | lru queue => .lru (queue.put id e)
  | adaptive a => .adaptive (a.enqueue id e)

/-- Takes out the entry under a key. -/
def remove (p : Policy κ) (k : κ) : Option EntryId × Policy κ :=
  match p with
  | lru queue =>
    let (id, queue) := queue.remove k
    (id, .lru queue)
  | adaptive a =>
    let (id, a) := a.remove k
    (id, .adaptive a)

/-- Takes out the entries whose key the predicate accepts, in the order in which it is asked. -/
def removeAll (p : Policy κ) (pred : Predicate κ) (asked : List κ) : List EntryId × Policy κ :=
  match p with
  | lru queue =>
    let (ids, queue) := queue.removeAll pred asked
    (ids, .lru queue)
  | adaptive a =>
    let (ids, a) := a.removeAll pred asked
    (ids, .adaptive a)

/-- What a predicate has been asked after a walk over all exclusive entries. -/
def askedAfter (p : Policy κ) (asked : List κ) : List κ :=
  p.pools.foldl (fun asked pool => pool.entries.askedAfter asked) asked

/-- Evicts until at most so many entries and bytes are left. -/
def evict (p : Policy κ) (accesses : EntryId → Nat) (maxCount maxSize : Nat) :
    List EntryId × Policy κ :=
  match p with
  | lru queue =>
    let (ids, queue) := queue.trimTo accesses maxCount maxSize
    (ids, .lru queue)
  | adaptive a =>
    let (ids, a) := a.evict accesses maxCount maxSize
    (ids, .adaptive a)

/-- Evicts until at most so many bytes are left, however many entries they are. -/
def trim (p : Policy κ) (accesses : EntryId → Nat) (target : Nat) : List EntryId × Policy κ :=
  match p with
  | lru queue =>
    let (ids, queue) := queue.trimTo accesses queue.count target
    (ids, .lru queue)
  | adaptive a =>
    let (ids, a) := a.trim accesses target
    (ids, .adaptive a)

/-- Makes the exclusive entry under a key the newest one. The adaptive policy counts that as a use and
chooses the pool anew. -/
def probe (p : Policy κ) (table : EntryTable κ) (k : κ) : Policy κ × EntryTable κ :=
  let (found, rest) := p.remove k
  match found with
  | none => (rest, table)
  | some id =>
    -- the use is counted first, so that it can bring the entry into the other pool
    let table := match p with
      | lru _ => table
      | adaptive _ => table.update id Entry.recordAccess
    match table.get? id with
    | none => (rest, table)
    | some e => (rest.enqueue id e, table)

/-- Learns from a request for a key that was not there. -/
def onMiss (p : Policy κ) (k : κ) : Policy κ :=
  match p with
  | lru queue => .lru queue
  | adaptive a => .adaptive (a.onMiss k)

/-- The uses that a new entry under a key starts with. -/
def initialAccesses (p : Policy κ) (k : κ) : Nat :=
  match p with
  | lru _ => 0
  | adaptive a => a.initialAccesses k

/-- The policy without exclusive entries; ghosts and settings stay. -/
def emptied : Policy κ → Policy κ
  | lru queue => .lru { queue with entries := .empty }
  | adaptive a =>
    .adaptive { a with
      lfu := { a.lfu with entries := .empty }
      mfu := { a.mfu with entries := .empty } }

/-- The share of the LFU pool, of a policy that has one. -/
def fraction? : Policy κ → Option Int
  | lru _ => none
  | adaptive a => some a.fraction

/-- The report of the policy; a single queue has nothing of its own to report. -/
def figures : Policy κ → Figures
  | lru _ => []
  | adaptive a => a.figures

/-- A description with all pools. -/
def describe (p : Policy κ) (key : κ → String) : String :=
  match p with
  | lru queue => Text.record "LruPolicy" [("pool", queue.describe key)]
  | adaptive a => a.describe key

end Policy

end RefCache
