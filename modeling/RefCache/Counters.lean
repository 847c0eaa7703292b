import RefCache.Word

/-! # Counters

What a cache counts over its life, and the figures it reports. A report is a list of named figures. Events come
one by one, but the bytes of values add up faster than that: they are counted in machine words, which wrap around,
and a report shows the words. -/

namespace RefCache

/-- Named figures. -/
abbrev Figures := List (String × Float)

/-- A count as a figure. -/
def figure (name : String) (n : Nat) : String × Float :=
  (name, Float.ofNat n)

/-- What every cache counts. -/
structure Counters where
  requests : Nat := 0
  hits : Nat := 0
  bytesServed : Tally := 0
  insertions : Nat := 0
  bytesWritten : Tally := 0
  rejections : Nat := 0
  evictions : Nat := 0
  bytesEvicted : Tally := 0
deriving DecidableEq, Repr, Inhabited

namespace Counters

/-- A request found a value of this size. -/
def recordHit (c : Counters) (size : Nat) : Counters :=
  { c with requests := c.requests + 1, hits := c.hits + 1, bytesServed := c.bytesServed.add size }

/-- A request found nothing. -/
def recordMiss (c : Counters) : Counters :=
  { c with requests := c.requests + 1 }

/-- A value of this size was taken in. -/
def recordInsertion (c : Counters) (size : Nat) : Counters :=
  { c with insertions := c.insertions + 1, bytesWritten := c.bytesWritten.add size }

/-- A value was turned down. -/
def recordRejection (c : Counters) : Counters :=
  { c with rejections := c.rejections + 1 }

/-- A value of this size was evicted. -/
def recordEviction (c : Counters) (size : Nat) : Counters :=
  { c with evictions := c.evictions + 1, bytesEvicted := c.bytesEvicted.add size }

/-- The requests that found nothing. -/
def misses (c : Counters) : Nat :=
  c.requests - c.hits

/-- The part of the requests that found a value; nothing of no requests. -/
def hitRate (c : Counters) : Float :=
  if c.requests = 0 then 0.0 else Float.ofNat c.hits / Float.ofNat c.requests

/-- The report of these counters. -/
def figures (c : Counters) : Figures :=
  [figure "requests" c.requests,
    figure "cache_hits" c.hits,
    figure "cache_misses" c.misses,
    ("hit_rate", c.hitRate),
    figure "bytes_served_from_cache" c.bytesServed.word.toNat,
    figure "insertions" c.insertions,
    figure "bytes_written_to_cache" c.bytesWritten.word.toNat,
    figure "rejections" c.rejections,
    figure "evictions" c.evictions,
    figure "bytes_evicted" c.bytesEvicted.word.toNat]

end Counters

/-- What the adaptive policy counts. -/
structure AdaptiveCounters where
  lfuGhostHits : Nat := 0
  mfuGhostHits : Nat := 0
  fractionIncreases : Nat := 0
  fractionDecreases : Nat := 0
  lfuAdmissions : Nat := 0
  mfuAdmissions : Nat := 0
deriving DecidableEq, Repr, Inhabited

/-- The report of these counters. -/
def AdaptiveCounters.figures (c : AdaptiveCounters) : Figures :=
  [figure "lfu_ghost_hits" c.lfuGhostHits,
    figure "mfu_ghost_hits" c.mfuGhostHits,
    figure "fraction_increases" c.fractionIncreases,
    figure "fraction_decreases" c.fractionDecreases,
    figure "lfu_admissions" c.lfuAdmissions,
    figure "mfu_admissions" c.mfuAdmissions]

end RefCache
