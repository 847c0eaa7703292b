import RefCache.Proofs.Chronicle.Departures
import RefCache.Proofs.Session.Asks

/-!
# Counters balance

What a cache counts is what it was asked for: requests and answers, and every value that it has taken in. A
value that was taken in is still cached, or it has left in exactly one way, and only what was evicted is
counted as evicted (`Cache.EventsBalance`). The same holds of the bytes (`Cache.Tallied`). Bytes are shown in
machine words, so they balance as words do, and as numbers as long as everything that was taken in adds up to
a word (`Cache.CountersBalance`). Wherever anything is asked or told in a session, its counters balance with
the operations so far.
-/

namespace RefCache

universe u

variable {κ : Type u} [Key κ]

namespace Asked

variable (x : Asked κ)

/-- The operation is a request. -/
def isRequest : Bool :=
  match x.op with
  | .get .. => true
  | _ => false

/-- The operation is a request, and it is answered. -/
def isAnswered : Bool :=
  match x.op with
  | .get s k => (x.cache.get s k).1.isSome
  | _ => false

/-- The operation offers a value, and it is taken in. -/
def isAccepted : Bool :=
  match x.op with
  | .store s k value size observer => (x.cache.store s k value size observer).1.isSome
  | _ => false

/-- The operation offers a value, and it is taken in under a key that is cached. -/
def supersedes : Bool :=
  match x.op with
  | .store s k value size observer =>
    (x.cache.store s k value size observer).1.isSome && x.cache.contains k
  | _ => false

/-- How many entries the operation removes by their keys, by its own account; a `clear` removes all. -/
def removals : Nat :=
  match x.op with
  | .removeAll s p => (x.cache.removeAll s p).1
  | .clear _ => x.cache.count
  | _ => 0

/-- The operation takes an entry back. -/
def reuses : Bool :=
  match x.op with
  | .reuse k => (x.cache.reuse k).1.isSome
  | _ => false

end Asked

/-- The recorded sizes of the rows. -/
def bytesOf (rows : List (κ × Sized EntryId)) : Nat :=
  totalOf (fun y => y.2.size) rows

/-- The sizes of all values that the operations have taken in. -/
def Asked.sizesTakenIn (l : List (Asked κ)) : Nat :=
  totalOf (fun x => bytesOf x.takenIn) l

/-- The events are counted as they came in the operations so far. -/
structure Cache.EventsBalance (l : List (Asked κ)) (c : Cache κ) : Prop where
  requests_eq : c.counters.requests = l.countP Asked.isRequest
  hits_eq : c.counters.hits = l.countP Asked.isAnswered
  accepted_eq : c.counters.insertions = l.countP Asked.isAccepted
  /-- What was taken in is there, or it was evicted, superseded, removed or taken back. -/
  insertions_eq : c.counters.insertions = c.count + c.counters.evictions
    + l.countP Asked.supersedes + totalOf Asked.removals l + l.countP Asked.reuses

/-- What the counters stand for balances with the operations so far. -/
structure Cache.Tallied (l : List (Asked κ)) (c : Cache κ) : Prop extends c.EventsBalance l where
  acceptedBytes_eq : c.counters.bytesWritten.number = Asked.sizesTakenIn l
  bytesWritten_eq : c.counters.bytesWritten.number = c.size + c.counters.bytesEvicted.number
    + totalOf (fun x => bytesOf x.superseded) l + totalOf (fun x => bytesOf x.removed) l
    + totalOf (fun x => bytesOf x.reused) l

/-- What the counters show balances with the operations so far. -/
structure Cache.CountersBalance (l : List (Asked κ)) (c : Cache κ) : Prop extends c.EventsBalance l where
  /-- The bytes that were taken in are counted in a machine word, which shows how many they are exactly as long as
  they are no more than a word can hold. -/
  acceptedBytes_eq : c.counters.bytesWritten.word = UInt64.ofNat (Asked.sizesTakenIn l)
  acceptedBytes_exact_iff : c.counters.bytesWritten.word.toNat = Asked.sizesTakenIn l
    ↔ Asked.sizesTakenIn l < UInt64.size
  /-- The bytes balance as machine words, whether or not one of these has wrapped around. -/
  bytesWritten_eq : c.counters.bytesWritten.word = c.cached.sizeInBytes + c.counters.bytesEvicted.word
    + UInt64.ofNat (totalOf (fun x => bytesOf x.superseded) l)
    + UInt64.ofNat (totalOf (fun x => bytesOf x.removed) l)
    + UInt64.ofNat (totalOf (fun x => bytesOf x.reused) l)
  /-- They balance as numbers until more has been taken in than a word can hold. -/
  bytesWritten_exact : Asked.sizesTakenIn l < UInt64.size →
    c.counters.bytesWritten.word.toNat = c.cached.sizeInBytes.toNat + c.counters.bytesEvicted.word.toNat
      + totalOf (fun x => bytesOf x.superseded) l + totalOf (fun x => bytesOf x.removed) l
      + totalOf (fun x => bytesOf x.reused) l

namespace Asked

variable {x : Asked κ}

/-! ## Rows and answers -/

theorem length_takenIn (x : Asked κ) : x.takenIn.length = if x.isAccepted then 1 else 0 := by
  obtain ⟨c, op⟩ := x
  cases op with
  | store s k value size observer =>
    cases hstored : (c.store s k value size observer).1 <;> simp [takenIn, isAccepted, hstored]
  | _ => rfl

/-- One row at most stands under a key. -/
private theorem length_filter_key (c : Cache κ) (k : κ) :
    (c.cached.toList.filter (·.1 = k)).length = if c.contains k then 1 else 0 := by
  have hcount := c.cached.nodup_keys.count (a := k)
  rw [SizedMap.keys_eq, List.count_eq_countP, List.countP_map, List.countP_eq_length_filter,
    ← SizedMap.keys_eq] at hcount
  simp only [← SizedMap.contains_iff_mem_keys] at hcount
  rw [← Cache.contains] at hcount
  rw [← hcount]
  rfl

theorem length_superseded (x : Asked κ) : x.superseded.length = if x.supersedes then 1 else 0 := by
  obtain ⟨c, op⟩ := x
  cases op with
  | store s k value size observer =>
    cases hstored : (c.store s k value size observer).1 with
    | none => simp [superseded, supersedes, hstored]
    | some id => simpa [superseded, supersedes, hstored] using length_filter_key c k
  | _ => rfl

/-- What is taken back was cached. -/
theorem Ready.length_reused (h : x.Ready) : x.reused.length = if x.reuses then 1 else 0 := by
  obtain ⟨c, op⟩ := x
  cases op with
  | reuse k =>
    unfold reused reuses
    -- what the policy finds under the key is what is cached there
    cases hfound : (c.policy.remove k).1 with
    | none => simp [Cache.reuse_of_none hfound]
    | some id =>
      obtain ⟨size, hmem⟩ := c.policy.mem_items_of_remove k id hfound
      have hcontains : c.contains k = true :=
        (c.cached.contains_iff_mem_keys k).2 (List.mem_map_of_mem (h.owned.cached_of_item hmem))
      have hlength := length_filter_key c k
      rw [hcontains] at hlength
      simpa [Cache.reuse_of_some hfound] using hlength
  | _ => rfl

/-- As many rows are removed as the operation says. -/
theorem Ready.length_removed (h : x.Ready) : x.removed.length = x.removals := by
  obtain ⟨c, op⟩ := x
  cases op with
  | removeAll s p =>
    have hrows := (c.cached.removeAll_of_keyDetermined h.determined (c.policy.askedAfter [])).1
    show (c.cached.toList.filter fun y => p.answer [] y.1).length
      = (c.cached.removeAll p (c.policy.askedAfter [])).1.length
    rw [hrows, SizedMap.pairs, List.filter_map, List.length_map]
    rfl
  | clear s => exact c.cached.length_toList
  | _ => rfl

/-- What is cached after an operation was cached before, or it was taken in. -/
theorem AccountsFor.count_le {out : List (κ × Sized EntryId)} {c : Cache κ} (h : x.AccountsFor out c) :
    c.count ≤ x.cache.count + x.takenIn.length := by
  have hlength := h.rows_perm.length_eq
  simp only [List.length_append, SizedMap.length_toList] at hlength
  unfold Cache.count
  omega

theorem AccountsFor.size_le {out : List (κ × Sized EntryId)} {c : Cache κ} (h : x.AccountsFor out c) :
    c.size ≤ x.cache.size + bytesOf x.takenIn := by
  have hbytes := totalOf_perm (fun y : κ × Sized EntryId => y.2.size) h.rows_perm
  simp only [totalOf_append, ← SizedMap.totalSize_eq_totalOf] at hbytes
  unfold Cache.size bytesOf
  omega

/-! ## One operation -/

/-- What an operation counts apart from evictions. -/
structure Counts (x : Asked κ) (n : Counters) : Prop where
  requests_eq : n.requests = x.cache.counters.requests + if x.isRequest then 1 else 0
  hits_eq : n.hits = x.cache.counters.hits + if x.isAnswered then 1 else 0
  insertions_eq : n.insertions = x.cache.counters.insertions + x.takenIn.length
  bytesWritten_eq : n.bytesWritten = x.cache.counters.bytesWritten.add (bytesOf x.takenIn)
  evictions_eq : n.evictions = x.cache.counters.evictions
  bytesEvicted_eq : n.bytesEvicted = x.cache.counters.bytesEvicted

theorem counts_counted (x : Asked κ) : x.Counts x.counted := by
  obtain ⟨c, op⟩ := x
  cases op with
  | store s k value size observer =>
    unfold counted
    dsimp only
    -- a value turned down adds to no counter of the balance but that of rejections
    cases hstored : (c.store s k value size observer).1 with
    | none =>
      constructor <;>
        simp [isRequest, isAnswered, takenIn, bytesOf, hstored, Counters.recordRejection, Tally.add_zero]
    | some id =>
      constructor <;> simp [isRequest, isAnswered, takenIn, bytesOf, hstored, Counters.recordInsertion]
  | get s k =>
    unfold counted
    dsimp only
    cases hfound : (c.get s k).1 with
    | none =>
      constructor <;>
        simp [isRequest, isAnswered, takenIn, bytesOf, hfound, Counters.recordMiss, Tally.add_zero]
    | some id =>
      constructor <;>
        simp [isRequest, isAnswered, takenIn, bytesOf, hfound, Counters.recordHit, Tally.add_zero]
  | _ => constructor <;> simp [isRequest, isAnswered, takenIn, bytesOf, counted, Tally.add_zero]

end Asked

namespace Cache

variable {c c' : Cache κ} {l : List (Asked κ)} {x : Asked κ}

/-- Counters balance whatever entries have been forgotten. -/
theorem EventsBalance.forget (h : c.EventsBalance l) (hforgets : c.Forgets c') : c'.EventsBalance l := by
  have hcounters := hforgets.counters_eq
  have hcount : c'.count = c.count := congrArg SizedMap.count hforgets.cached_eq
  constructor
  · rw [hcounters, h.requests_eq]
  · rw [hcounters, h.hits_eq]
  · rw [hcounters, h.accepted_eq]
  · rw [hcounters, hcount, h.insertions_eq]

theorem Tallied.forget (h : c.Tallied l) (hforgets : c.Forgets c') : c'.Tallied l := by
  have hcounters := hforgets.counters_eq
  have hsize : c'.size = c.size := congrArg SizedMap.totalSize hforgets.cached_eq
  refine ⟨h.toEventsBalance.forget hforgets, ?_, ?_⟩
  · rw [hcounters, h.acceptedBytes_eq]
  · rw [hcounters, hsize, h.bytesWritten_eq]

/-- Every operation keeps the balance of the events. -/
theorem EventsBalance.ask (h : x.cache.EventsBalance l) (hx : x.Ready) : x.after.EventsBalance (l ++ [x]) := by
  obtain ⟨out, _, hcounters, hrows⟩ := hx.accounts_for
  have hcounts := x.counts_counted
  -- the rows are counted
  have hlength := hrows.length_eq
  simp only [List.length_append, SizedMap.length_toList, x.length_superseded, hx.length_reused,
    hx.length_removed] at hlength
  -- requests, hits and accepted values are simply counted
  constructor
  · rw [hcounters, Counters.requests_recordEvictions, hcounts.requests_eq, h.requests_eq]
    simp
  · rw [hcounters, Counters.hits_recordEvictions, hcounts.hits_eq, h.hits_eq]
    simp
  · rw [hcounters, Counters.insertions_recordEvictions, hcounts.insertions_eq, x.length_takenIn, h.accepted_eq]
    simp
  · -- entries in the cache and out of it make up those that have come in
    have hold := h.insertions_eq
    simp only [hcounters, Counters.insertions_recordEvictions, Counters.evictions_recordEvictions,
      hcounts.insertions_eq, hcounts.evictions_eq, List.countP_append, List.countP_singleton,
      totalOf_append, totalOf_cons, totalOf_nil]
    unfold Cache.count at *
    omega

/-- Every operation keeps the balance of events and bytes. -/
theorem Tallied.ask (h : x.cache.Tallied l) (hx : x.Ready) : x.after.Tallied (l ++ [x]) := by
  obtain ⟨out, _, hcounters, hrows⟩ := hx.accounts_for
  have hcounts := x.counts_counted
  -- the sizes of the rows are added up
  have hbytes := totalOf_perm (fun y : κ × Sized EntryId => y.2.size) hrows
  simp only [totalOf_append, ← SizedMap.totalSize_eq_totalOf] at hbytes
  refine ⟨h.toEventsBalance.ask hx, ?_, ?_⟩
  · rw [hcounters, Counters.bytesWritten_recordEvictions, hcounts.bytesWritten_eq, Tally.number_add,
      h.acceptedBytes_eq]
    simp [Asked.sizesTakenIn]
  · have hold := h.bytesWritten_eq
    simp only [hcounters, Counters.bytesWritten_recordEvictions, Counters.bytesEvicted_recordEvictions,
      hcounts.bytesWritten_eq, hcounts.bytesEvicted_eq, Tally.number_add, totalOf_append, totalOf_cons,
      totalOf_nil]
    unfold Cache.size bytesOf at *
    omega

/-- Where what the counters stand for balances, so does what they show. -/
theorem Tallied.countersBalance (h : c.Tallied l) : c.CountersBalance l where
  toEventsBalance := h.toEventsBalance
  acceptedBytes_eq := by rw [Tally.word_eq, h.acceptedBytes_eq]
  acceptedBytes_exact_iff := by
    rw [← h.acceptedBytes_eq]
    exact Tally.toNat_word_eq_iff _
  bytesWritten_eq := by
    -- a sum of numbers is, as a word, the sum of their words
    rw [Tally.word_eq, h.bytesWritten_eq, UInt64.ofNat_add, UInt64.ofNat_add, UInt64.ofNat_add,
      UInt64.ofNat_add, ← Tally.word_eq, SizedMap.sizeInBytes_eq]
    rfl
  bytesWritten_exact := by
    intro hfits
    have hwritten := h.acceptedBytes_eq
    have hbalance := h.bytesWritten_eq
    have hsize : c.size = c.cached.totalSize := rfl
    -- what is there and what was evicted are parts of what was taken in, so they fit as well
    rw [(Tally.toNat_word_eq_iff _).2 (by omega), (Tally.toNat_word_eq_iff _).2 (by omega),
      c.cached.toNat_sizeInBytes_eq_iff.2 (by omega)]
    exact hbalance

end Cache

namespace Session

theorem tallied_start (setup : Setup κ) : (start setup).cache.Tallied [] := by
  rw [cache_start]
  exact ⟨⟨rfl, rfl, rfl, rfl⟩, rfl, rfl⟩

/-- In every session the counters balance all along. -/
theorem counters_balance (setup : Setup κ) (steps : List (Step κ)) (hsetup : setup.KeyDetermined)
    (hsteps : ∀ step ∈ steps, step.KeyDetermined) :
    ∃ log, (start setup).Unfolds [] log ((start setup).runAll steps) ∧
      askedOf log = ((start setup).runAll steps).operations.reverse ∧
      Along Cache.CountersBalance log ((start setup).runAll steps) := by
  obtain ⟨log, hlog, hasked, halong⟩ := exists_along (fun _ _ _ hforgets h => h.forget hforgets)
    (fun _ _ hx h => h.ask hx) setup steps hsetup hsteps (tallied_start setup)
  exact ⟨log, hlog.unfolds, hasked, halong.imp fun _ _ h => h.countersBalance⟩

/-- Two exclusive entries of each pool can stay. -/
def fourExclusive : Setup Nat where
  tuning := some {}
  limits := { maxQueueEntries := 4 }

/-- The first value is superseded and the second evicted, one is removed, one taken back, and two are cleared;
the last one stays. -/
def fiveWaysOut : List (Step Nat) :=
  [.request (.put 1 { tag := "a", size := 10 } none none),
    .request (.put 1 { tag := "b", size := 20 } none none),
    .request (.put 2 { tag := "c", size := 30 } none none),
    .request (.put 3 { tag := "d", size := 40 } none none),
    .request (.get 3 none),
    .request (.get 9 none),
    .request (.removeAll (.ofKey fun k => k = 2)),
    .request (.reuse 3 none),
    .request (.put 4 { tag := "e", size := 50 } none none),
    .request (.put 5 { tag := "f", size := 60 } none none),
    .request .clear,
    .request (.put 6 { tag := "g", size := 70 } none none)]

theorem counters_balance_fiveWaysOut :
    (∃ log, (start fourExclusive).Unfolds [] log ((start fourExclusive).runAll fiveWaysOut) ∧
      askedOf log = ((start fourExclusive).runAll fiveWaysOut).operations.reverse ∧
      Along Cache.CountersBalance log ((start fourExclusive).runAll fiveWaysOut)) ∧
      ((start fourExclusive).runAll fiveWaysOut).cache.counters =
        { requests := 2
          hits := 1
          bytesServed := 40
          insertions := 7
          bytesWritten := 280
          evictions := 1
          bytesEvicted := 20 } ∧
      ((start fourExclusive).runAll fiveWaysOut).cache.cached.keys = [6] := by
  refine ⟨counters_balance fourExclusive fiveWaysOut (fun _ hr => nomatch hr) fun step hstep => ?_,
    by decide +kernel, by decide +kernel⟩
  simp only [fiveWaysOut, List.mem_cons, List.not_mem_nil, or_false] at hstep
  rcases hstep with rfl | rfl | rfl | rfl | rfl | rfl | rfl | rfl | rfl | rfl | rfl | rfl
  case inr.inr.inr.inr.inr.inr.inl => exact Predicate.keyDetermined_ofKey _
  all_goals trivial

end Session

end RefCache
