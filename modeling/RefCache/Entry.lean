import RefCache.Key
import RefCache.Register
import RefCache.Text

/-! # Entries

An `Entry` is what a cache keeps for one accepted value: the key it was cached under, the value, the size
measured when it came in, and what the ownership rules are about:

* `clients`, the references to it that are held outside. An entry with clients is in use.
* `orphan`, set once the entry has left the cache, and never taken back.
* `accesses`, how often it was handed out, on top of what was remembered of its key.

Entries are numbered in order of admission, and everything else refers to an entry by its number. -/

namespace RefCache

universe u

/-- The number of an entry, in order of admission. -/
abbrev EntryId := Nat

/-- The number of a value, in order of creation. -/
abbrev ValueId := Nat

/-- What a cache keeps for one accepted value. -/
structure Entry (κ : Type u) where
  key : κ
  value : ValueId
  size : Nat
  /-- Who is told when the last client lets the entry go and when it is taken back. -/
  observer : Option String := none
  clients : Nat := 0
  orphan : Bool := false
  accesses : Nat := 0
deriving Repr, DecidableEq

namespace Entry

variable {κ : Type u}

/-- One more client holds the entry. -/
def addClient (e : Entry κ) : Entry κ :=
  { e with clients := e.clients + 1 }

/-- One client less holds the entry. -/
def dropClient (e : Entry κ) : Entry κ :=
  { e with clients := e.clients - 1 }

/-- The entry has left the cache. -/
def markOrphan (e : Entry κ) : Entry κ :=
  { e with orphan := true }

/-- The entry has been used once more. -/
def recordAccess (e : Entry κ) : Entry κ :=
  { e with accesses := e.accesses + 1 }

/-- A description with the key, the size and the state of ownership. -/
def describe (e : Entry κ) (key : κ → String) : String :=
  Text.record "Entry"
    [("key", key e.key),
      ("size", Text.number e.size),
      ("client_count", Text.number e.clients),
      ("orphan", Text.truth e.orphan),
      ("access_count", Text.number e.accesses)]

end Entry

/-- All entries that somebody still refers to. -/
abbrev EntryTable (κ : Type u) := Register (Entry κ)

namespace EntryTable

variable {κ : Type u}

/-- How often an entry has been used. -/
def accesses (t : EntryTable κ) (id : EntryId) : Nat :=
  ((t.get? id).map Entry.accesses).getD 0

/-- The size of an entry. -/
def size (t : EntryTable κ) (id : EntryId) : Nat :=
  ((t.get? id).map Entry.size).getD 0

/-- The keys of several entries. -/
def keys (t : EntryTable κ) (ids : List EntryId) : List κ :=
  ids.filterMap fun id => (t.get? id).map Entry.key

end EntryTable

end RefCache
