import RefCache.Cache.Basic

/-! # Transitions

Whatever a cache is asked, it first brings its whole state up to date, evictions included, and only then do
the consequences for others follow: observers are told, and entries that left the cache are let go. A
`Transition` is a state on its way through such an operation together with the consequences collected so
far, each in order:

* `notices`, whom to tell that an entry has become exclusive or is no longer so;
* `detached`, the entries that left the map of cached entries;
* `calls` and `messages`, what the policy was asked and what the log is to know;
* `polls`, how often new limits were asked for.

The operations of `RefCache.Cache.Operations` are put together from the steps defined here. -/

namespace RefCache

universe u

/-- An entry has become exclusive, or is no longer so. -/
structure Notice where
  entry : EntryId
  exclusive : Bool
deriving DecidableEq, Repr

/-- A cache in the middle of an operation, and what is to follow. -/
structure Transition (κ : Type u) [Key κ] where
  cache : Cache κ
  notices : List Notice := []
  detached : List EntryId := []
  calls : List (PolicyCall κ) := []
  messages : List Message := []
  polls : Nat := 0

namespace Transition

variable {κ : Type u} [Key κ]

/-- Changes the state. -/
def modify (t : Transition κ) (change : Cache κ → Cache κ) : Transition κ :=
  { t with cache := change t.cache }

/-- Changes an entry. -/
def updateEntry (t : Transition κ) (id : EntryId) (change : Entry κ → Entry κ) : Transition κ :=
  t.modify fun c => { c with entries := c.entries.update id change }

/-- Puts a notice after those collected so far. -/
def notify (t : Transition κ) (id : EntryId) (exclusive : Bool) : Transition κ :=
  { t with notices := t.notices ++ [⟨id, exclusive⟩] }

/-- Records something the policy was asked. -/
def called (t : Transition κ) (call : PolicyCall κ) : Transition κ :=
  { t with calls := t.calls ++ [call] }

/-- Adds a log message. -/
def log (t : Transition κ) (m : Message) : Transition κ :=
  { t with messages := t.messages ++ [m] }

/-- Asks for new limits if those in effect are due. -/
def reload (t : Transition κ) (s : Surroundings) : Transition κ :=
  if t.cache.reloadDue s.now then
    { t with
      cache := { t.cache with limits := s.offered, lastCheck := s.now }
      polls := t.polls + 1 }.log (.reloaded s.offered)
  else t

/-- Takes the exclusive entry under a key out of the policy; it is no longer exclusive. -/
def unqueue (t : Transition κ) (k : κ) : Option EntryId × Transition κ :=
  let (found, policy) := t.cache.policy.remove k
  let t := (t.modify ({ · with policy := policy })).called (.remove found.isSome)
  match found with
  | none => (none, t)
  | some id => (some id, t.notify id false)

/-- Takes the entry under a key out of the map of cached entries, to be let go afterwards. -/
def detach (t : Transition κ) (k : κ) : Option EntryId × Transition κ :=
  match t.cache.cached.get? k with
  | none => (none, t)
  | some id =>
    (some id,
      { t with
        cache := { t.cache with cached := t.cache.cached.erase k }
        detached := t.detached ++ [id] })

/-- Marks an entry as having left the cache. -/
def orphan (t : Transition κ) (id : EntryId) : Transition κ :=
  t.updateEntry id Entry.markOrphan

/-- Hands an entry out to one more client. -/
def handOut (t : Transition κ) (id : EntryId) : Transition κ :=
  t.updateEntry id fun e => e.addClient.recordAccess

/-- Takes one evicted entry out of the cache: it becomes an orphan and is no longer exclusive. -/
def discardOne (t : Transition κ) (id : EntryId) : Transition κ :=
  match t.cache.entries.get? id with
  | none => t
  | some e =>
    -- what is cached under the key goes, be it this entry or another
    ((t.detach e.key).2.orphan id
      |>.modify fun c => { c with counters := c.counters.recordEviction e.size}).notify id false

/-- Takes evicted entries out of the cache, in order. -/
def discard (t : Transition κ) (ids : List EntryId) : Transition κ :=
  if ids.isEmpty then t
  else
    -- the policy has let them go already, so its count is what is left
    let t := t.log (.evicted t.cache.policy.name ids.length t.cache.policy.count)
    ids.foldl discardOne t

/-- Evicts exclusive entries until the policy keeps to its budget. -/
def evict (t : Transition κ) : Transition κ :=
  let c := t.cache
  let (maxCount, maxSize) := c.queueBudget
  let (evicted, policy) := c.policy.evict c.entries.accesses maxCount maxSize
  ((t.modify ({ · with policy := policy })).called
    (.evict maxCount maxSize (c.entries.keys evicted))).discard evicted

end Transition

end RefCache
