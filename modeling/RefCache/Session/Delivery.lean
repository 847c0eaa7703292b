import RefCache.Session.Basic

/-! # Delivering the consequences of an operation

When an operation of the cache has brought its state up to date, `finish` delivers the consequences: it tells
the observers, in order, and then lets go of the entries that were kept for that. An observer may react by
asking for something; how such a request is performed is a parameter (`Responder`) here, so that everything
in this module is defined without recursion.

Closing the last copy of a reference is an operation of the cache too, so placing and closing references
also belongs here. -/

namespace RefCache

universe u

/-- A way to perform a request. -/
abbrev Responder (κ : Type u) [Key κ] :=
  Session κ → Request κ → Session κ × Outcome κ

/-- The first element that passes a test, and the list without it. -/
def extractFirst {α : Type u} (test : α → Bool) : List α → Option (α × List α)
  | [] => none
  | a :: rest =>
    if test a then some (a, rest)
    else (extractFirst test rest).map fun found => (found.1, a :: found.2)

namespace Session

variable {κ : Type u} [Key κ]

/-- Performs one request of an observer that was told about a key. Once the cache has been dropped there is
nobody to ask, but references and handles can still be copied and dropped. -/
def reactOnce (respond : Responder κ) (k : κ) (s : Session κ) (r : Request κ) : Session κ :=
  if r.asksCache && !s.present then s
  else
    let (s, outcome) := respond s r
    s.record (.reacted k outcome)

/-- Performs the first reaction that fits what an observer was told, which happens once only. -/
def react (respond : Responder κ) (s : Session κ) (k : κ) (exclusive : Bool) : Session κ :=
  match extractFirst (fun r => r.key = k && r.exclusive = exclusive) s.reactions with
  | none => s
  | some (reaction, rest) =>
    reaction.requests.foldl (reactOnce respond k) { s with reactions := rest }

/-- Tells the observer of an entry, if it has one, which may react. -/
def tell (respond : Responder κ) (s : Session κ) (n : Notice) : Session κ :=
  match s.cache.entries.get? n.entry with
  | none => s
  | some e =>
    match e.observer with
    | none => s
    | some observer =>
      (s.record (.told n.entry observer e.key n.exclusive (s.sight? e.key))).react respond e.key
        n.exclusive

/-- Takes over the state at the end of the transition that an operation made. The entries that its
consequences are about are kept until those have been delivered. -/
def adopt (s : Session κ) (op : Operation κ) (t : Transition κ) : Session κ :=
  { s with
    cache := t.cache
    operations := op :: s.operations
    inFlight := t.notices.map Notice.entry ++ t.detached ++ s.inFlight
    polls := s.polls + t.polls
    calls := t.calls.reverse ++ s.calls
    messages := t.messages.reverse ++ s.messages }

/-- Delivers the consequences of a transition whose state has been taken over: observers are told first, in
order, and then the entries are let go, those that observers were told about before those that left the
cache. -/
def deliver (respond : Responder κ) (s : Session κ) (t : Transition κ) : Session κ :=
  let s := t.notices.foldl (tell respond) s
  (t.notices.map Notice.entry ++ t.detached).foldl letGo s

/-- Takes over the state at the end of the transition that an operation made, and delivers the
consequences. -/
def finish (respond : Responder κ) (s : Session κ) (op : Operation κ) (t : Transition κ) :
    Session κ :=
  (s.adopt op t).deliver respond t

/-! ## References -/

/-- A new client of an entry; the first part is its number. -/
def addClient (s : Session κ) (id : EntryId) : ClientId × Session κ :=
  (s.clients.next, { s with clients := s.clients.add { entry := id } })

/-- One copy of a reference less. With the last copy the client lets go of its entry, which is kept until
the cache has dealt with that. -/
def dropRef (respond : Responder κ) (s : Session κ) (client : ClientId) : Session κ :=
  match s.clients.get? client with
  | none => s
  | some c =>
    if c.copies > 1 then
      { s with clients := s.clients.update client fun c => { c with copies := c.copies - 1 } }
    else
      -- the entry is kept until everybody has been told, even if the cache lets it go
      let op := .release s.surroundings c.entry
      let t := s.cache.apply op
      let s := { s with clients := s.clients.remove client }.keep c.entry
      ((s.afterReading.finish respond op t).letGo c.entry).tearDownIfDeserted

/-- Gives a reference to the holder of a name, whose former reference is dropped afterwards, or drops it
when there is no name. -/
def placeRef (respond : Responder κ) (s : Session κ) (client : ClientId) (into : Option String) :
    Session κ :=
  match into with
  | none => s.dropRef respond client
  | some name =>
    let former := s.refs[name]?
    -- the new reference is in its place before the former one is dropped
    let s := { s with refs := s.refs.insert name client }
    match former with
    | none => s
    | some client => s.dropRef respond client

/-- Ends an operation that may have handed out an entry: the client is there before the consequences are
delivered, and gets its place, or is dropped, once they have been. -/
def handOver (respond : Responder κ) (s : Session κ) (op : Operation κ) (t : Transition κ)
    (found : Option EntryId) (into : Option String) : Session κ × Outcome κ :=
  match found with
  | none => (s.finish respond op t, .handedOut none)
  | some id =>
    let (client, s) := s.addClient id
    let s := s.finish respond op t
    (s.placeRef respond client into, .handedOut (s.view? client))

end Session

end RefCache
