import RefCache.Session.Perform

/-! # Steps of a session

A `Step` is anything that can happen in a session: a request, a change of the surroundings, or a question
that changes nothing. `run` performs one step and says what came of it, and `Report` is what has happened
since, in order. -/

namespace RefCache

universe u

/-- A question that changes nothing. -/
inductive Query (κ : Type u) where
  | handle (handle : String)
  | sameValue (a b : String)
  | ref (ref : String)
  | sameEntry (a b : String)
  | contains (key : κ)
  | containsMatching (predicate : Predicate κ)
  /-- The whole state of the cache. -/
  | cache

/-- The answer to a question. -/
inductive Answer (κ : Type u) [Key κ] where
  | noHolder
  | noCache
  | handle (value : Value)
  | ref (view : RefView κ)
  | truth (b : Bool)
  /-- Whether a key matches, and the keys asked about, in order. -/
  | matching (found : Bool) (asked : List κ)
  | cache (state : Cache κ)

/-- Anything that can happen in a session. -/
inductive Step (κ : Type u) where
  | request (r : Request κ)
  | advance (time : Duration)
  | offer (limits : Limits)
  | setRatio (ratio : Float)
  | dropCache
  /-- Closes all references in order of their names. -/
  | closeRefs
  /-- Closes all value handles in order of their names. -/
  | closeHandles
  /-- Asks the policy what it knows of a key. -/
  | askPolicy (key : κ)

/-- How a session begins. -/
structure Setup (κ : Type u) where
  /-- The tuning of the adaptive policy; a single queue without one. -/
  tuning : Option Tuning := none
  limits : Limits := {}
  strategy : TrimStrategy := .suggested
  defaultObserver : Option String := none
  clock : Clock := .manual 0
  reactions : List (Reaction κ) := []

/-- What has happened, in order. -/
structure Report (κ : Type u) where
  events : List (Event κ)
  calls : List (PolicyCall κ)
  messages : List Message

namespace Session

variable {κ : Type u} [Key κ]

/-- A new session. Illegal tuning is reported to the log before the cache is created. -/
def start (setup : Setup κ) : Session κ :=
  let policy : Policy κ := match setup.tuning with
    | none => .newLru
    | some tuning => .newAdaptive tuning
  let faults := match setup.tuning with
    | none => []
    | some tuning => tuning.faults.map Message.tuning
  let t := Cache.create policy ⟨setup.clock.now, setup.limits⟩
  { cache := t.cache
    clock := setup.clock.afterReading
    offered := setup.limits
    polls := t.polls
    strategy := setup.strategy
    defaultObserver := setup.defaultObserver
    reactions := setup.reactions
    calls := t.calls.reverse
    messages := t.messages.reverse ++ faults.reverse }

/-- The cache is dropped; its state lives on as long as there are clients. -/
def dropCache (s : Session κ) : Session κ :=
  if s.present then { s with present := false }.tearDownIfDeserted else s

/-- Performs one step. -/
def run (s : Session κ) : Step κ → Session κ × Outcome κ
  | .request r => s.perform r
  | .advance time => ({ s with clock := s.clock.advance time }, .done)
  | .offer limits => ({ s with offered := limits }, .done)
  | .setRatio ratio => ({ s with strategy := s.strategy.setRatio ratio }, .done)
  | .dropCache => (s.dropCache, .done)
  | .closeRefs => (s.refs.keys.foldl (fun s ref => (s.perform (.closeRef ref)).1) s, .done)
  | .closeHandles => (s.handles.keys.foldl (fun s h => (s.perform (.closeHandle h)).1) s, .done)
  | .askPolicy k =>
    s.withCache fun s =>
      -- asking is a call of the policy like any other
      let accesses := s.cache.policy.initialAccesses k
      ({ s with calls := .initialAccesses accesses :: s.calls },
        .prospect (s.cache.policy.contains k) accesses)

/-- Performs steps one after the other. -/
def runAll (s : Session κ) (steps : List (Step κ)) : Session κ :=
  steps.foldl (fun s step => (s.run step).1) s

/-- The answer to a question. -/
def ask (s : Session κ) : Query κ → Answer κ
  | .handle handle =>
    match s.handleView? handle with
    | none => .noHolder
    | some value => .handle value
  | .sameValue a b =>
    match s.handles[a]?, s.handles[b]? with
    | some v, some w => .truth (v = w)
    | _, _ => .noHolder
  | .ref ref =>
    match s.refView? ref with
    | none => .noHolder
    | some view => .ref view
  | .sameEntry a b =>
    match s.refs[a]?.bind s.clients.get?, s.refs[b]?.bind s.clients.get? with
    | some c, some d => .truth (c.entry = d.entry)
    | _, _ => .noHolder
  | .contains k => if s.present then .truth (s.cache.contains k) else .noCache
  | .containsMatching p =>
    if s.present then
      let (found, asked) := s.cache.containsMatching p
      .matching found asked.reverse
    else .noCache
  | .cache => if s.present then .cache s.cache else .noCache

/-- What has happened since an earlier moment of the same session. -/
def since (s earlier : Session κ) : Report κ where
  events := (s.events.take (s.events.length - earlier.events.length)).reverse
  calls := (s.calls.take (s.calls.length - earlier.calls.length)).reverse
  messages := (s.messages.take (s.messages.length - earlier.messages.length)).reverse

end Session

/-- A description of a reference: the key and the value of its entry. -/
def RefView.describe {κ : Type u} (v : RefView κ) (key : κ → String) : String :=
  Text.record "CacheRef"
    [("key", key v.entry.key), ("value", v.value.tag ++ ":" ++ Text.number v.value.size)]

/-- A description of a handle: the value and the number of its handles. -/
def Value.describe (v : Value) : String :=
  Text.record "CloseableRef"
    [("value", v.tag ++ ":" ++ Text.number v.size), ("handles", Text.number v.handles)]

end RefCache
