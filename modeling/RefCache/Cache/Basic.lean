import RefCache.Message
import RefCache.Policy

/-! # The state of a cache

A `Cache` knows its entries by key in order of admission (`cached`), keeps those without clients with its
policy, and holds the table of all entries that somebody still refers to, orphans included. Its limits are
those it was last offered.

An entry that is cached but not with the policy is in use. The room that entries in use leave under the
limits decides whether a new value is admitted (`admits`) and how much the policy may keep
(`queueBudget`). How many entries are in use, and how large they are, is reckoned as a difference of machine
words: should the policy ever keep more than is cached, it wraps around. Room is reckoned differently: where
there is none left, it is nothing. -/

namespace RefCache

universe u

/-- The world around a cache when it is asked something: the time, and the limits it would be offered. -/
structure Surroundings where
  now : Duration
  offered : Limits
deriving Repr

/-- The state of a cache. -/
structure Cache (κ : Type u) [Key κ] where
  /-- The entries by key, oldest admission first. -/
  cached : SizedMap κ EntryId
  /-- The keeper of the exclusive entries. -/
  policy : Policy κ
  /-- All entries that are referred to, cached or not. -/
  entries : EntryTable κ
  limits : Limits
  /-- When the limits were last asked for. -/
  lastCheck : Duration
  counters : Counters

namespace Cache

variable {κ : Type u} [Key κ]

/-- The number of cached entries. -/
def count (c : Cache κ) : Nat :=
  c.cached.count

/-- The total size of the cached entries. -/
def size (c : Cache κ) : Nat :=
  c.cached.totalSize

/-- The number of cached entries with clients: all but those that the policy keeps. -/
def inUseCount (c : Cache κ) : Nat :=
  wordSub c.cached.count c.policy.count

/-- The total size of the cached entries with clients. -/
def inUseSize (c : Cache κ) : Nat :=
  wordSub c.cached.totalSize c.policy.size

/-- Whether a key is cached. -/
def contains (c : Cache κ) (k : κ) : Bool :=
  c.cached.contains k

/-- The number and the size of the cached entry under a key, if it is in use; nothing otherwise. -/
def heldUnder (c : Cache κ) (k : κ) : Nat × Nat :=
  if c.policy.contains k then (0, 0)
  else match c.cached.get? k with
    | none => (0, 0)
    | some id => (1, c.entries.size id)

/-- A value of this size may come in under this key: it is not too large for one entry, and the entries in
use leave room for it. An entry in use under the same key would leave the cache, so it does not count. -/
def admits (c : Cache κ) (k : κ) (size : Nat) : Bool :=
  -- an exclusive entry under the key is not among those in use, so it needs no correction
  let (replacedCount, replacedSize) := c.heldUnder k
  size ≤ c.limits.maxEntrySize
    && wordSub c.inUseCount replacedCount < c.limits.maxEntries
    && size ≤ c.limits.maxSize - wordSub c.inUseSize replacedSize

/-- How many entries and how many bytes the policy may keep. -/
def queueBudget (c : Cache κ) : Nat × Nat :=
  (min c.limits.maxQueueEntries (c.limits.maxEntries - c.inUseCount),
    min c.limits.maxQueueSize (c.limits.maxSize - c.inUseSize))

/-- The limits have been in effect for their interval. An end of the interval that cannot be represented
never comes. -/
def reloadDue (c : Cache κ) (now : Duration) : Bool :=
  match c.lastCheck.add? c.limits.checkInterval with
  | none => false
  | some due => due ≤ now

/-- Whether a cached key is accepted by the predicate, asked oldest admission first, and what it has been
asked then. -/
def containsMatching (c : Cache κ) (p : Predicate κ) : Bool × List κ :=
  c.cached.anyKey p []

/-- The report of the cache: what it counted, what it holds, its limits, and what its policy reports. -/
def figures (c : Cache κ) : Figures :=
  c.counters.figures
    ++ [figure "cached_count" c.count,
      figure "cached_size_in_bytes" c.cached.sizeInBytes.toNat,
      figure "in_use_count" c.inUseCount,
      figure "in_use_size_in_bytes" c.inUseSize,
      figure "eviction_queue_count" c.policy.count,
      figure "eviction_queue_size_in_bytes" c.policy.sizeInBytes.toNat,
      figure "max_cache_size" c.limits.maxSize,
      figure "max_cache_entries" c.limits.maxEntries]
    ++ c.policy.figures

/-- A description with the totals and the limits. -/
def describe (c : Cache κ) : String :=
  Text.record "MemoryCache"
    [("policy", Text.quoted c.policy.name),
      ("count", Text.number c.count),
      ("size_in_bytes", Text.number c.cached.sizeInBytes.toNat),
      ("eviction_queue_count", Text.number c.policy.count),
      ("params", c.limits.describe)]

/-- Whether the cache itself still refers to an entry: it is cached or exclusive, or it has clients. -/
def refersTo (c : Cache κ) (id : EntryId) : Bool :=
  match c.entries.get? id with
  | none => false
  | some e => e.clients > 0 || c.cached.get? e.key = some id || c.policy.holds e.key id

end Cache

end RefCache
