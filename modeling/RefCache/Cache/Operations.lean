import RefCache.Cache.Transition

/-! # What a cache can be asked

Each operation takes a cache and its surroundings to a `Transition`. All but `probe` and `reuse` look
whether new limits are due, and all but `probe`, `reuse` and `clear` end by evicting what exceeds the
budget of the policy; the limits that decide are those after the check. -/

namespace RefCache

universe u

namespace Transition

variable {κ : Type u} [Key κ]

/-- Takes whatever is cached under a key out of the cache, to make room for a new value. -/
def supersede (t : Transition κ) (k : κ) : Transition κ :=
  let (replaced, t) := (t.unqueue k).2.detach k
  match replaced with
  | none => t
  | some id => t.orphan id

/-- Admits a value under a key, held by one client; the first part is the number of its entry. -/
def accept (t : Transition κ) (k : κ) (value : ValueId) (size : Nat) (observer : Option String) :
    EntryId × Transition κ :=
  let accesses := t.cache.policy.initialAccesses k
  let id := t.cache.entries.next
  let e : Entry κ :=
    { key := k, value := value, size := size, observer := observer, accesses := accesses }
  let t := (t.called (.initialAccesses accesses)).modify fun c =>
    { c with
      entries := c.entries.add e
      cached := c.cached.put k id size
      counters := c.counters.recordInsertion size }
  (id, t.handOut id)

/-- Counts a request that was answered, and hands the entry out. -/
def hit (t : Transition κ) (id : EntryId) : Transition κ :=
  (t.modify fun c => { c with counters := c.counters.recordHit (c.entries.size id) }).handOut id

/-- Counts a request in vain, and lets the policy learn from it. -/
def miss (t : Transition κ) (k : κ) : Transition κ :=
  (t.modify fun c =>
    { c with counters := c.counters.recordMiss, policy := c.policy.onMiss k }).called .onMiss

/-- Turns a value down. -/
def reject (t : Transition κ) (size : Nat) : Transition κ :=
  (t.log (.rejected size)).modify fun c => { c with counters := c.counters.recordRejection }

/-- Gives an entry to the policy if it has no clients and is still cached: it is exclusive now. -/
def settle (t : Transition κ) (id : EntryId) : Transition κ :=
  match t.cache.entries.get? id with
  | none => t
  | some e =>
    if e.clients = 0 ∧ e.orphan = false then
      ((t.modify fun c => { c with policy := c.policy.enqueue id e }).called
        (.enqueue e.key e.accesses)).notify id true
    else t

/-- Takes every entry whose key the predicate accepts out of the cache. The predicate is asked about the
exclusive entries first and then about all that are cached. The first part counts those that were cached,
the second is all that was asked. -/
def removeMatching (t : Transition κ) (p : Predicate κ) : Nat × List κ × Transition κ :=
  let c := t.cache
  -- two walks: what the first one asked, the second one knows
  let (exclusives, policy) := c.policy.removeAll p []
  let asked := c.policy.askedAfter []
  let (removed, cached) := c.cached.removeAll p asked
  let ids := removed.map Prod.snd
  let t := { t with
    cache := { c with policy := policy, cached := cached }
    detached := t.detached ++ ids }
  let t := t.called (.removeAll (c.entries.keys exclusives))
  let t := ids.foldl orphan t
  (removed.length, c.cached.askedAfter asked, exclusives.foldl (notify · · false) t)

end Transition

namespace Cache

variable {κ : Type u} [Key κ]

/-- A cache at rest, at the start of an operation. -/
def start (c : Cache κ) : Transition κ :=
  { cache := c }

/-- A new cache, which asks for its first limits. -/
def create (policy : Policy κ) (s : Surroundings) : Transition κ where
  cache :=
    { cached := .empty
      policy := policy
      entries := .empty
      limits := s.offered
      lastCheck := s.now
      counters := {} }
  messages := [.created policy.name s.offered]
  polls := 1

/-- Caches a value under a key and hands it out to a client, or turns it down when there is no room; an
entry that was cached under the key leaves the cache in the first case. The first part is the entry. -/
def store (c : Cache κ) (s : Surroundings) (k : κ) (value : ValueId) (size : Nat)
    (observer : Option String) : Option EntryId × Transition κ :=
  let t := c.start.reload s
  if t.cache.admits k size then
    let (id, t) := (t.supersede k).accept k value size observer
    (some id, t.evict)
  else
    (none, (t.reject size).evict)

/-- Hands the entry cached under a key out to a client. -/
def get (c : Cache κ) (s : Surroundings) (k : κ) : Option EntryId × Transition κ :=
  let t := (c.start.unqueue k).2
  match t.cache.cached.get? k with
  | some id => (some id, ((t.hit id).reload s).evict)
  | none => (none, ((t.miss k).reload s).evict)

/-- Makes the exclusive entry under a key the newest one of its queue. -/
def probe (c : Cache κ) (k : κ) : Transition κ :=
  let (policy, entries) := c.policy.probe c.entries k
  (c.start.modify ({ · with policy := policy, entries := entries })).called .probe

/-- Takes the exclusive entry under a key out of the cache, for its value; the first part is the entry. -/
def reuse (c : Cache κ) (k : κ) : Option EntryId × Transition κ :=
  let (found, t) := c.start.unqueue k
  match found with
  | none => (none, t)
  | some id => (some id, (t.detach k).2.orphan id)

/-- Takes every entry whose key the predicate accepts out of the cache. The first part counts them, the
second is what the predicate was asked, latest first. -/
def removeAll (c : Cache κ) (s : Surroundings) (p : Predicate κ) : Nat × List κ × Transition κ :=
  let (removed, asked, t) := c.start.removeMatching p
  (removed, asked, (t.reload s).evict)

/-- Takes every entry out of the cache. -/
def clear (c : Cache κ) (s : Surroundings) : Transition κ :=
  (c.start.removeMatching .always).2.2.reload s

/-- The size that a trim by this ratio leaves to the policy: what it leaves of the whole cache, less what
is in use. -/
def trimTarget (c : Cache κ) (ratio : Float) : Nat :=
  Ratio.remaining ratio c.size - c.inUseSize

/-- Gives back memory by a ratio between 0 and 1. -/
def trim (c : Cache κ) (s : Surroundings) (pressure : Pressure) (ratio : Float) : Transition κ :=
  let target := c.trimTarget ratio
  let (evicted, policy) := c.policy.trim c.entries.accesses target
  let t := (c.start.log (.trimming pressure ratio target)).modify ({ · with policy := policy })
  let t := (t.called (.trim target (c.entries.keys evicted))).discard evicted
  (t.reload s).evict

/-- A client has let go of an entry. -/
def release (c : Cache κ) (s : Surroundings) (id : EntryId) : Transition κ :=
  ((((c.start.updateEntry id Entry.dropClient).settle id).reload s).evict)

end Cache

/-! ## Operations as data -/

/-- Something a cache was asked, with the surroundings it had then. -/
inductive Operation (κ : Type u) where
  | store (s : Surroundings) (key : κ) (value : ValueId) (size : Nat) (observer : Option String)
  | get (s : Surroundings) (key : κ)
  | probe (key : κ)
  | reuse (key : κ)
  | removeAll (s : Surroundings) (predicate : Predicate κ)
  | clear (s : Surroundings)
  | trim (s : Surroundings) (pressure : Pressure) (ratio : Float)
  | release (s : Surroundings) (entry : EntryId)

namespace Cache

variable {κ : Type u} [Key κ]

/-- What an operation does to a cache, whatever it answers. -/
def apply (c : Cache κ) : Operation κ → Transition κ
  | .store s k value size observer => (c.store s k value size observer).2
  | .get s k => (c.get s k).2
  | .probe k => c.probe k
  | .reuse k => (c.reuse k).2
  | .removeAll s p => (c.removeAll s p).2.2
  | .clear s => c.clear s
  | .trim s pressure ratio => c.trim s pressure ratio
  | .release s id => c.release s id

/-- The cache after several operations, one after the other. -/
def applyAll (c : Cache κ) (ops : List (Operation κ)) : Cache κ :=
  ops.foldl (fun c op => (c.apply op).cache) c

end Cache

end RefCache
