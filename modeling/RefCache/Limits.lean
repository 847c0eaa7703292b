import RefCache.Duration

/-! # Limits

The limits a cache works under. They bound the whole cache, the part of it that waits in the eviction
queue, and a single entry; `checkInterval` says how long limits stay in effect before the cache asks for
new ones. -/

namespace RefCache

/-- The largest size or number the limits can name. -/
def unlimited : Nat := UInt64.size - 1

/-- How much a cache may hold. -/
structure Limits where
  /-- Bytes in the whole cache. -/
  maxSize : Nat := 32 * 1024 * 1024
  /-- Entries in the whole cache. -/
  maxEntries : Nat := 256
  /-- Bytes in the eviction queue. -/
  maxQueueSize : Nat := unlimited
  /-- Entries in the eviction queue. -/
  maxQueueEntries : Nat := unlimited
  /-- Bytes in one entry. -/
  maxEntrySize : Nat := unlimited
  /-- How long these limits stay in effect unquestioned. -/
  checkInterval : Duration := .ofSeconds 300
deriving DecidableEq, Repr, Inhabited

namespace Limits

/-- No limit on sizes and numbers. -/
def unbounded : Limits where
  maxSize := unlimited
  maxEntries := unlimited

/-- A description with all six limits. -/
def describe (l : Limits) : String :=
  Text.record "MemoryCacheParams"
    [("max_cache_size", Text.number l.maxSize),
      ("max_cache_entries", Text.number l.maxEntries),
      ("max_eviction_queue_size", Text.number l.maxQueueSize),
      ("max_eviction_queue_entries", Text.number l.maxQueueEntries),
      ("max_cache_entry_size", Text.number l.maxEntrySize),
      ("params_check_interval", l.checkInterval.text)]

/-- A description of a cache that is about to be built: the limits offered to it, and whether it will
have an observer for all its entries. -/
def describeSetup (l : Limits) (observed : Bool) : String :=
  Text.record "MemoryCacheBuilder" [("params", l.describe), ("has_observer", Text.truth observed)]

end Limits

end RefCache
