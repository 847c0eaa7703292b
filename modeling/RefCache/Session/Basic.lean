import RefCache.Cache.Operations

/-! # Sessions

A `Session` is a cache together with everybody who holds something of it. Outside the cache there are two
kinds of holders, each under a name of its own: client references to entries, and handles to values.

Values are reference counted: `Value.handles` counts the handles held outside and the entries that carry
the value, and a value is released when that count comes to nothing. Client references are reference
counted too: the copies of one reference share one `Client`, and only when the last copy goes has the
client let go of its entry.

Observers may answer what they are told by asking the cache for something; `Reaction` says to what, and
`Event` is what an onlooker sees happen, in order. -/

namespace RefCache

universe u

/-- The number of a client, in order of appearance. -/
abbrev ClientId := Nat

/-- A value that is shared and counted. -/
structure Value where
  tag : String
  size : Nat
  /-- The handles to it, those of entries included. -/
  handles : Nat := 1
  /-- Whether its release is reported. -/
  reported : Bool := true
deriving DecidableEq, Repr, Inhabited

/-- A client of an entry, and the copies of its reference. -/
structure Client where
  entry : EntryId
  copies : Nat := 1
deriving DecidableEq, Repr, Inhabited

/-- A value to be created. -/
structure NewValue where
  tag : String
  size : Nat
  reported : Bool := true
deriving DecidableEq, Repr, Inhabited

/-- Something asked of the cache, of its references or of value handles. `into` names the holder of what
comes out of it; without a name it is dropped at once. -/
inductive Request (κ : Type u) where
  /-- Creates a value, caches it and drops the handle to it. -/
  | put (key : κ) (value : NewValue) (observer : Option String) (into : Option String)
  /-- Caches the value of a handle. -/
  | store (key : κ) (handle : String) (observer : Option String) (into : Option String)
  | get (key : κ) (into : Option String)
  | probe (key : κ)
  | reuse (key : κ) (into : Option String)
  | removeAll (predicate : Predicate κ)
  | clear
  | trim (pressure : Pressure)
  | copyRef (ref : String) (into : Option String)
  | closeRef (ref : String)
  /-- A handle to the value of a reference. -/
  | valueOf (ref : String) (into : Option String)
  | newValue (value : NewValue) (into : Option String)
  | copyHandle (handle : String) (into : Option String)
  | closeHandle (handle : String)

/-- Whether the request is made of the cache itself, and not of references or handles. -/
def Request.asksCache {κ : Type u} : Request κ → Bool
  | .copyRef .. | .closeRef .. | .valueOf .. | .newValue .. | .copyHandle .. | .closeHandle .. => false
  | _ => true

/-- What an observer does when it is told for the first time that the entry under `key` has become
exclusive, or is no longer so. -/
structure Reaction (κ : Type u) where
  key : κ
  exclusive : Bool
  requests : List (Request κ)

/-- What a reference shows when it is handed out: the tag of the value, and the uses and the clients of the
entry. -/
structure ClientView where
  tag : String
  accesses : Nat
  clients : Nat
deriving DecidableEq, Repr

/-- What a reference shows on closer inspection. -/
structure RefView (κ : Type u) where
  entry : Entry κ
  value : Value

/-- What came of a request. -/
inductive Outcome (κ : Type u) where
  | done
  /-- There is no holder of that name. -/
  | noHolder
  /-- The cache has been dropped. -/
  | noCache
  /-- The reference that was handed out, if one was. -/
  | handedOut (view : Option ClientView)
  /-- The tag and the handles of the value that was taken out, if one was. -/
  | takenOut (value : Option (String × Nat))
  /-- How many entries were removed, and the keys the predicate was asked about, in order. -/
  | removed (count : Nat) (asked : List κ)
  /-- Whether the policy keeps an entry under the key, and with how many uses a new one would start. -/
  | prospect (exclusive : Bool) (accesses : Nat)

/-- Something that an onlooker sees. -/
inductive Event (κ : Type u) where
  /-- A value was released. -/
  | released (value : ValueId) (tag : String)
  /-- An observer was told about an entry. It sees then whether the key is cached and how many entries are
  exclusive, unless the cache has been dropped. -/
  | told (entry : EntryId) (observer : String) (key : κ) (exclusive : Bool) (sight : Option (Bool × Nat))
  /-- The trim strategy was asked for a ratio. -/
  | ratioAsked (pressure : Pressure)
  /-- An observer's request came to an end. -/
  | reacted (key : κ) (outcome : Outcome κ)

/-- A cache and all who hold something of it. -/
structure Session (κ : Type u) [Key κ] where
  cache : Cache κ
  /-- The cache has not been dropped. -/
  present : Bool := true
  values : Register Value := .empty
  clients : Register Client := .empty
  /-- The references held outside, by name. -/
  refs : Std.TreeMap String ClientId := ∅
  /-- The value handles held outside, by name. -/
  handles : Std.TreeMap String ValueId := ∅
  /-- Entries kept for the time being by operations that have not come to their end. -/
  inFlight : List EntryId := []
  clock : Clock
  /-- The limits that the cache is offered when it asks. -/
  offered : Limits
  /-- How often the cache asked for limits. -/
  polls : Nat := 0
  strategy : TrimStrategy := .suggested
  /-- The observer of entries that are cached without one of their own. -/
  defaultObserver : Option String := none
  /-- The reactions still to come. -/
  reactions : List (Reaction κ) := []
  /-- The values created so far, latest first. -/
  created : List NewValue := []
  /-- What happened so far, latest first. -/
  events : List (Event κ) := []
  /-- What the cache was asked so far, latest first. -/
  operations : List (Operation κ) := []
  /-- What the policy was asked so far, latest first. -/
  calls : List (PolicyCall κ) := []
  /-- What the log was told so far, latest first. -/
  messages : List Message := []

namespace Session

variable {κ : Type u} [Key κ]

/-- Something happens. -/
def record (s : Session κ) (e : Event κ) : Session κ :=
  { s with events := e :: s.events }

/-- The surroundings of the next operation. -/
def surroundings (s : Session κ) : Surroundings :=
  ⟨s.clock.now, s.offered⟩

/-- The session after the clock has been read once. -/
def afterReading (s : Session κ) : Session κ :=
  { s with clock := s.clock.afterReading }

/-! ## Values and their handles -/

/-- One more handle to a value. -/
def addHandle (s : Session κ) (v : ValueId) : Session κ :=
  { s with values := s.values.update v fun value => { value with handles := value.handles + 1 } }

/-- One handle less to a value; the last one releases it. -/
def dropHandle (s : Session κ) (v : ValueId) : Session κ :=
  match s.values.get? v with
  | none => s
  | some value =>
    if value.handles ≤ 1 then
      let s := { s with values := s.values.remove v }
      if value.reported then s.record (.released v value.tag) else s
    else
      { s with values := s.values.update v fun value => { value with handles := value.handles - 1 } }

/-- Creates a value with one handle; the first part is its number. -/
def createValue (s : Session κ) (v : NewValue) : ValueId × Session κ :=
  (s.values.next,
    { s with
      values := s.values.add { tag := v.tag, size := v.size, reported := v.reported }
      created := v :: s.created })

/-- Gives a handle to the holder of a name, whose former handle is dropped afterwards, or drops it when
there is no name. -/
def placeHandle (s : Session κ) (v : ValueId) (into : Option String) : Session κ :=
  match into with
  | none => s.dropHandle v
  | some name =>
    let former := s.handles[name]?
    let s := { s with handles := s.handles.insert name v }
    match former with
    | none => s
    | some v => s.dropHandle v

/-! ## Letting entries go -/

/-- An entry that nobody refers to any more is gone, and with it a handle to its value. -/
def dropUnlessHeld (s : Session κ) (id : EntryId) : Session κ :=
  if s.inFlight.contains id || s.cache.refersTo id then s
  else match s.cache.entries.get? id with
    | none => s
    | some e =>
      { s with cache := { s.cache with entries := s.cache.entries.remove id } }.dropHandle e.value

/-- Keeps an entry for the time being. -/
def keep (s : Session κ) (id : EntryId) : Session κ :=
  { s with inFlight := id :: s.inFlight }

/-- Ends the keeping of an entry. -/
def letGo (s : Session κ) (id : EntryId) : Session κ :=
  { s with inFlight := s.inFlight.erase id }.dropUnlessHeld id

/-- Nobody shares the state of the cache: it has been dropped, the last client is gone, and no operation is
under way. -/
def deserted (s : Session κ) : Bool :=
  !s.present && s.clients.isEmpty && s.inFlight.isEmpty

theorem deserted_iff (s : Session κ) :
    s.deserted = true ↔ s.present = false ∧ s.clients.isEmpty = true ∧ s.inFlight = [] := by
  simp [deserted, and_assoc]

/-- The end of a cache whose state nobody shares: the cached entries are let go, oldest first, and then the
exclusive ones in the order of the policy. -/
def tearDownIfDeserted (s : Session κ) : Session κ :=
  if !s.deserted then s
  else
    let cached := s.cache.cached.values
    -- an exclusive entry stays for now, since the policy still refers to it
    let s := { s with cache := { s.cache with cached := .empty } }
    let s := cached.foldl dropUnlessHeld s
    let exclusive := s.cache.policy.ids
    let s := { s with cache := { s.cache with policy := s.cache.policy.emptied } }
    exclusive.foldl dropUnlessHeld s

/-! ## Views -/

/-- What a reference shows when it is handed out. -/
def view? (s : Session κ) (client : ClientId) : Option ClientView :=
  (s.clients.get? client).bind fun c =>
    (s.cache.entries.get? c.entry).bind fun e =>
      (s.values.get? e.value).map fun v => ⟨v.tag, e.accesses, e.clients⟩

/-- What the reference of a name shows. -/
def refView? (s : Session κ) (ref : String) : Option (RefView κ) :=
  s.refs[ref]?.bind fun client =>
    (s.clients.get? client).bind fun c =>
      (s.cache.entries.get? c.entry).bind fun e =>
        (s.values.get? e.value).map fun v => ⟨e, v⟩

/-- What the handle of a name shows. -/
def handleView? (s : Session κ) (handle : String) : Option Value :=
  s.handles[handle]?.bind s.values.get?

/-- What an observer sees of the cache when it is told about a key. -/
def sight? (s : Session κ) (k : κ) : Option (Bool × Nat) :=
  if s.present then some (s.cache.contains k, s.cache.policy.count) else none

end Session

end RefCache
