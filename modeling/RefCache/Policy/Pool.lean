import RefCache.Entry
import RefCache.History
import RefCache.SizedMap

/-! # Eviction pools

A `Pool` holds the exclusive entries of a cache, those without clients, in the order in which they became
exclusive, and remembers the keys of the entries it evicted in a ghost list, each with how often the entry
had been used. Entries that are taken out in any other way leave no ghost. -/

namespace RefCache

universe u

/-- Exclusive entries in order of admission, and the ghosts of evicted ones. -/
structure Pool (κ : Type u) [Key κ] where
  entries : SizedMap κ EntryId
  ghosts : History κ Nat

namespace Pool

variable {κ : Type u} [Key κ]

/-- The pool without entries, which remembers at most so many ghosts. -/
def empty (ghostCapacity : Nat) : Pool κ where
  entries := .empty
  ghosts := .empty ghostCapacity

/-- The number of entries. -/
def count (p : Pool κ) : Nat :=
  p.entries.count

/-- The total size of the entries. -/
def size (p : Pool κ) : Nat :=
  p.entries.totalSize

/-- The total size of the entries as it is kept and shown: a machine word. -/
def sizeInBytes (p : Pool κ) : UInt64 :=
  p.entries.sizeInBytes

/-- The entries, oldest admission first. -/
def ids (p : Pool κ) : List EntryId :=
  p.entries.values

/-- The keys of the entries, oldest admission first. -/
def keys (p : Pool κ) : List κ :=
  p.entries.keys

/-- Whether there is an entry under a key. -/
def contains (p : Pool κ) (k : κ) : Bool :=
  p.entries.contains k

/-- Takes in an entry as the newest. -/
def put (p : Pool κ) (id : EntryId) (e : Entry κ) : Pool κ :=
  { p with entries := p.entries.put e.key id e.size }

/-- Takes out the entry under a key. -/
def remove (p : Pool κ) (k : κ) : Option EntryId × Pool κ :=
  (p.entries.get? k, { p with entries := p.entries.erase k })

/-- Takes out the entries whose key the predicate accepts, oldest first. -/
def removeAll (p : Pool κ) (pred : Predicate κ) (asked : List κ) : List EntryId × Pool κ :=
  let (removed, entries) := p.entries.removeAll pred asked
  (removed.map Prod.snd, { p with entries := entries })

/-- The pool holds more than so many entries or so many bytes. -/
def Exceeds (p : Pool κ) (maxCount maxSize : Nat) : Prop :=
  p.count > maxCount ∨ p.size > maxSize

instance (p : Pool κ) (maxCount maxSize : Nat) : Decidable (p.Exceeds maxCount maxSize) :=
  inferInstanceAs (Decidable (_ ∨ _))

/-- Evicts oldest entries, at most `fuel` of them, until the limits hold. Every evicted key becomes a ghost,
with how often its entry had been used. -/
def trimLoop (accesses : EntryId → Nat) (maxCount maxSize : Nat) :
    Nat → Pool κ → List EntryId × Pool κ
  | 0, p => ([], p)
  | fuel + 1, p =>
    if p.Exceeds maxCount maxSize then
      match p.entries.popOldest? with
      | none => ([], p)
      | some ((k, id), entries) =>
        -- what the insertion pushes out of the ghosts is forgotten for good
        let evicted := trimLoop accesses maxCount maxSize fuel
          { entries := entries, ghosts := (p.ghosts.insert k (accesses id)).2 }
        (id :: evicted.1, evicted.2)
    else ([], p)

/-- Evicts oldest entries until the limits hold; the first part is what was evicted, in that order. No more
entries can be evicted than there are, so the loop always gets to its end. -/
def trimTo (p : Pool κ) (accesses : EntryId → Nat) (maxCount maxSize : Nat) :
    List EntryId × Pool κ :=
  trimLoop accesses maxCount maxSize p.count p

/-- Somebody asked in vain for a key: if the pool evicted it, its ghost is used once more and becomes the
most recent one. The first part says whether it was. -/
def ghostHit (p : Pool κ) (k : κ) : Bool × Pool κ :=
  let (found, ghosts) := p.ghosts.refresh k (· + 1)
  (found.isSome, { p with ghosts := ghosts })

/-- A description with the entries and the ghosts. -/
def describe (p : Pool κ) (key : κ → String) : String :=
  Text.record "ExclusivePool"
    [("entries", p.entries.describe key), ("ghosts", p.ghosts.describe key Text.number)]

end Pool

end RefCache
