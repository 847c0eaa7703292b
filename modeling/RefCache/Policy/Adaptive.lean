import RefCache.Counters
import RefCache.Policy.Pool
import RefCache.Tuning

/-! # The adaptive policy

Exclusive entries are kept in two pools by how often they were used: the less frequently used (LFU), with
at most `threshold` uses, and the more frequently used (MFU). Each pool gets its share of the room in the
eviction queue and evicts its own oldest entries.

A miss on a key that the LFU pool evicted shows that this pool was too small, so its share grows by
`rate`; a miss on a key that only the MFU pool evicted shrinks it. A step that would take the share out of
its bounds is not taken at all. -/

namespace RefCache

universe u

/-- The part of a total that a share in promil gives, rounded down. -/
def share (total : Nat) (promil : Int) : Nat :=
  total * promil.toNat / wholePromil.toNat

/-- Two pools of exclusive entries and the share of the first. -/
structure Adaptive (κ : Type u) [Key κ] where
  lfu : Pool κ
  mfu : Pool κ
  /-- The share of the LFU pool, in promil. -/
  fraction : Int
  /-- How far one ghost hit moves the share. -/
  rate : Int
  /-- The most uses an entry of the LFU pool can have. -/
  threshold : Nat
  counters : AdaptiveCounters := {}

namespace Adaptive

variable {κ : Type u} [Key κ]

/-- Empty pools under the given tuning, with defaults in the place of illegal settings. -/
def ofTuning (t : Tuning) : Adaptive κ :=
  let legal := t.validated
  { lfu := .empty legal.ghostCapacity.toNat
    mfu := .empty legal.ghostCapacity.toNat
    fraction := legal.fraction
    rate := legal.rate
    threshold := legal.threshold.toNat }

/-- Takes in an entry, into the pool for its number of uses. -/
def enqueue (a : Adaptive κ) (id : EntryId) (e : Entry κ) : Adaptive κ :=
  if e.accesses > a.threshold then
    { a with
      mfu := a.mfu.put id e
      counters := { a.counters with mfuAdmissions := a.counters.mfuAdmissions + 1 } }
  else
    { a with
      lfu := a.lfu.put id e
      counters := { a.counters with lfuAdmissions := a.counters.lfuAdmissions + 1 } }

/-- Takes out the entry under a key. -/
def remove (a : Adaptive κ) (k : κ) : Option EntryId × Adaptive κ :=
  let (fromLfu, lfu) := a.lfu.remove k
  let (fromMfu, mfu) := a.mfu.remove k
  (fromLfu.or fromMfu, { a with lfu := lfu, mfu := mfu })

/-- Takes out the entries whose key the predicate accepts, from the LFU pool and then from the MFU pool. -/
def removeAll (a : Adaptive κ) (pred : Predicate κ) (asked : List κ) : List EntryId × Adaptive κ :=
  let (fromLfu, lfu) := a.lfu.removeAll pred asked
  let (fromMfu, mfu) := a.mfu.removeAll pred (a.lfu.entries.askedAfter asked)
  (fromLfu ++ fromMfu, { a with lfu := lfu, mfu := mfu })

/-- Brings each pool down to its share of the room for entries and for bytes, LFU first. -/
def evict (a : Adaptive κ) (accesses : EntryId → Nat) (maxCount maxSize : Nat) :
    List EntryId × Adaptive κ :=
  let lfuCount := share maxCount a.fraction
  let lfuSize := share maxSize a.fraction
  let (fromLfu, lfu) := a.lfu.trimTo accesses lfuCount lfuSize
  let (fromMfu, mfu) := a.mfu.trimTo accesses (maxCount - lfuCount) (maxSize - lfuSize)
  (fromLfu ++ fromMfu, { a with lfu := lfu, mfu := mfu })

/-- The sizes that the LFU and the MFU pool are to have so that both together keep to a target: the MFU
pool stays as it is as long as the LFU pool can make up for it. -/
def trimTargets (a : Adaptive κ) (target : Nat) : Nat × Nat :=
  -- when the target is below what the MFU pool holds, nothing of the LFU pool can stay
  if target ≤ a.mfu.size then (0, target) else (target - a.mfu.size, a.mfu.size)

/-- Evicts until at most `target` bytes are left, from the LFU pool first. -/
def trim (a : Adaptive κ) (accesses : EntryId → Nat) (target : Nat) : List EntryId × Adaptive κ :=
  let (lfuTarget, mfuTarget) := a.trimTargets target
  -- a pool always keeps to its own count, so only the sizes decide
  let (fromLfu, lfu) := a.lfu.trimTo accesses a.lfu.count lfuTarget
  let (fromMfu, mfu) := a.mfu.trimTo accesses a.mfu.count mfuTarget
  (fromLfu ++ fromMfu, { a with lfu := lfu, mfu := mfu })

/-- The LFU pool was too small: its share grows by a step, unless that takes it too far. -/
def growFraction (a : Adaptive κ) : Adaptive κ :=
  if a.fraction + a.rate ≤ maxFraction then
    { a with
      fraction := a.fraction + a.rate
      counters := { a.counters with fractionIncreases := a.counters.fractionIncreases + 1 } }
  else a

/-- The MFU pool was too small: the share of the LFU pool shrinks by a step, unless that takes it too
far. -/
def shrinkFraction (a : Adaptive κ) : Adaptive κ :=
  if minFraction ≤ a.fraction - a.rate then
    { a with
      fraction := a.fraction - a.rate
      counters := { a.counters with fractionDecreases := a.counters.fractionDecreases + 1 } }
  else a

/-- Learns from a request for a key that was not there. -/
def onMiss (a : Adaptive κ) (k : κ) : Adaptive κ :=
  let (inLfu, lfu) := a.lfu.ghostHit k
  -- a key remembered by both pools counts for the LFU pool alone
  if inLfu then
    growFraction { a with
      lfu := lfu
      counters := { a.counters with lfuGhostHits := a.counters.lfuGhostHits + 1 } }
  else
    let (inMfu, mfu) := a.mfu.ghostHit k
    if inMfu then
      shrinkFraction { a with
        mfu := mfu
        counters := { a.counters with mfuGhostHits := a.counters.mfuGhostHits + 1 } }
    else a

/-- The uses that a new entry starts with: those remembered of its key by the LFU ghosts. -/
def initialAccesses (a : Adaptive κ) (k : κ) : Nat :=
  (a.lfu.ghosts.get? k).getD 0

/-- The report of the policy. -/
def figures (a : Adaptive κ) : Figures :=
  [("lfu_fraction_promil", Float.ofInt a.fraction),
    figure "lfu_count" a.lfu.count,
    figure "lfu_size_in_bytes" a.lfu.sizeInBytes.toNat,
    figure "mfu_count" a.mfu.count,
    figure "mfu_size_in_bytes" a.mfu.sizeInBytes.toNat,
    figure "lfu_ghost_count" a.lfu.ghosts.size,
    figure "mfu_ghost_count" a.mfu.ghosts.size]
    ++ a.counters.figures

/-- A description with the settings and both pools. -/
def describe (a : Adaptive κ) (key : κ → String) : String :=
  Text.record "AdaptivePolicy"
    [("lfu_fraction_promil", Text.integer a.fraction),
      ("adaptive_rate_promil", Text.integer a.rate),
      ("frequently_used_threshold", Text.number a.threshold),
      ("lfu", a.lfu.describe key),
      ("mfu", a.mfu.describe key)]

end Adaptive

end RefCache
