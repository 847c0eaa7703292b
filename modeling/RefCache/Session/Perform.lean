import RefCache.Session.Delivery

/-! # Performing requests

`performWith` performs one request, given a way to perform the requests of observers that react to it.
`perform` closes the circle: every reaction happens once only, so a request can be nested in others no
deeper than there are reactions, and that bound makes the definition structural. -/

namespace RefCache

universe u

namespace Session

variable {κ : Type u} [Key κ]

/-- Caches a value, which gets one more handle if it is accepted. -/
def storeValue (respond : Responder κ) (s : Session κ) (k : κ) (v : ValueId)
    (observer : Option String) : Option ClientId × Session κ :=
  let size := ((s.values.get? v).map Value.size).getD 0
  let observer := observer.or s.defaultObserver
  let op := .store s.surroundings k v size observer
  let (found, t) := s.cache.store s.surroundings k v size observer
  let s := s.afterReading
  match found with
  | none => (none, s.finish respond op t)
  | some id =>
    -- the entry has its handle and its client before anybody is told
    let (client, s) := (s.addHandle v).addClient id
    (some client, s.finish respond op t)

/-- Gives the outcome of an attempt to cache a value to its holder. -/
def placeStored (respond : Responder κ) (s : Session κ) (client : Option ClientId)
    (into : Option String) : Session κ × Outcome κ :=
  match client with
  | none => (s, .handedOut none)
  | some client => (s.placeRef respond client into, .handedOut (s.view? client))

/-- Performs a request that the cache has to be there for. -/
def withCache (s : Session κ) (go : Session κ → Session κ × Outcome κ) : Session κ × Outcome κ :=
  if s.present then go s else (s, .noCache)

/-- Creates a value, caches it and drops the handle to it. -/
def put (respond : Responder κ) (s : Session κ) (k : κ) (value : NewValue) (observer : Option String)
    (into : Option String) : Session κ × Outcome κ :=
  let (v, s) := s.createValue value
  let (client, s) := s.storeValue respond k v observer
  (s.dropHandle v).placeStored respond client into

/-- Caches the value of a handle. -/
def store (respond : Responder κ) (s : Session κ) (k : κ) (handle : String)
    (observer : Option String) (into : Option String) : Session κ × Outcome κ :=
  match s.handles[handle]? with
  | none => (s, .noHolder)
  | some v =>
    let (client, s) := s.storeValue respond k v observer
    s.placeStored respond client into

/-- Asks for the entry under a key. -/
def get (respond : Responder κ) (s : Session κ) (k : κ) (into : Option String) :
    Session κ × Outcome κ :=
  let (found, t) := s.cache.get s.surroundings k
  s.afterReading.handOver respond (.get s.surroundings k) t found into

/-- Takes the value of the exclusive entry under a key out of the cache. -/
def reuse (respond : Responder κ) (s : Session κ) (k : κ) (into : Option String) :
    Session κ × Outcome κ :=
  let (found, t) := s.cache.reuse k
  match found.bind fun id => t.cache.entries.get? id with
  | none => (s.finish respond (.reuse k) t, .takenOut none)
  | some e =>
    let s := (s.addHandle e.value).finish respond (.reuse k) t
    (s.placeHandle e.value into,
      .takenOut ((s.values.get? e.value).map fun value => (value.tag, value.handles)))

/-- Removes the entries whose keys the predicate accepts. -/
def removeAll (respond : Responder κ) (s : Session κ) (p : Predicate κ) : Session κ × Outcome κ :=
  let (removed, asked, t) := s.cache.removeAll s.surroundings p
  (s.afterReading.finish respond (.removeAll s.surroundings p) t, .removed removed asked.reverse)

/-- Gives back memory. A strategy set by hand is seen to be asked for the ratio first. -/
def trim (respond : Responder κ) (s : Session κ) (pressure : Pressure) : Session κ :=
  let s := match s.strategy with
    | .suggested => s
    | .custom .. => s.record (.ratioAsked pressure)
  let ratio := Ratio.clamp (s.strategy.ratio pressure)
  let op := .trim s.surroundings pressure ratio
  s.afterReading.finish respond op (s.cache.apply op)

/-- Performs a request, given a way to perform those of observers. -/
def performWith (respond : Responder κ) : Responder κ
  | s, .put k value observer into => s.withCache (·.put respond k value observer into)
  | s, .store k handle observer into => s.withCache (·.store respond k handle observer into)
  | s, .get k into => s.withCache (·.get respond k into)
  | s, .probe k => s.withCache fun s => (s.finish respond (.probe k) (s.cache.probe k), .done)
  | s, .reuse k into => s.withCache (·.reuse respond k into)
  | s, .removeAll p => s.withCache (·.removeAll respond p)
  | s, .clear => s.withCache fun s =>
    let op := .clear s.surroundings
    (s.afterReading.finish respond op (s.cache.apply op), .done)
  | s, .trim pressure => s.withCache fun s => (s.trim respond pressure, .done)
  | s, .copyRef ref into =>
    match s.refs[ref]? with
    | none => (s, .noHolder)
    | some client =>
      let s := { s with
        clients := s.clients.update client fun c => { c with copies := c.copies + 1 } }
      (s.placeRef respond client into, .done)
  | s, .closeRef ref =>
    match s.refs[ref]? with
    | none => (s, .noHolder)
    | some client => ({ s with refs := s.refs.erase ref }.dropRef respond client, .done)
  | s, .valueOf ref into =>
    match s.refView? ref with
    | none => (s, .noHolder)
    | some seen => ((s.addHandle seen.entry.value).placeHandle seen.entry.value into, .done)
  | s, .newValue value into =>
    let (v, s) := s.createValue value
    (s.placeHandle v into, .done)
  | s, .copyHandle handle into =>
    match s.handles[handle]? with
    | none => (s, .noHolder)
    | some v => ((s.addHandle v).placeHandle v into, .done)
  | s, .closeHandle handle =>
    match s.handles[handle]? with
    | none => (s, .noHolder)
    | some v => ({ s with handles := s.handles.erase handle }.dropHandle v, .done)

/-- Performs a request with at most so many requests nested in each other. -/
def performNested : Nat → Responder κ
  | 0 => performWith fun s _ => (s, .done)
  | depth + 1 => performWith (performNested depth)

/-- Performs a request; the reactions still to come bound how deep requests can be nested. -/
def perform (s : Session κ) (r : Request κ) : Session κ × Outcome κ :=
  performNested s.reactions.length s r

end Session

end RefCache
