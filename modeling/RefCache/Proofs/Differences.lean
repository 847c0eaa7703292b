import RefCache.Proofs.Budget.Capped
import RefCache.Proofs.CounterBalance
import RefCache.Proofs.FractionFollows

/-!
# No difference falls below zero

A cache reckons how much is in use as a difference that would wrap around below zero, and other differences are
cut off there. Neither ever happens: what the policy keeps is part of what is cached, what is held under a key is
part of what is in use, a share is part of its total, and a recorded size is part of the running total
(`Cache.NoUnderflow`, `Asked.NoUnderflow`). The fraction moves within the bounds of small integers. As long as the
sizes of all values that were taken in add up to a machine word, so do all the running totals (`Cache.FitsWord`).
-/

namespace RefCache

universe u v

variable {κ : Type u} [Key κ]

/-! ## Running totals -/

/-- What an erasure takes off the running total was part of it. -/
theorem SizedMap.totalSize_erase {ν : Type v} (m : SizedMap κ ν) {k : κ} {a : Sized ν}
    (h : (k, a) ∈ m.toList) : (m.erase k).totalSize + a.size = m.totalSize := by
  have hrows := totalOf_perm (fun e : κ × Sized ν => e.2.size) (perm_cons_filter_key m.nodup_keys h)
  rw [← toList, totalOf_cons] at hrows
  rw [totalSize_eq_totalOf, totalSize_eq_totalOf, toList_erase, hrows, Nat.add_comm]

/-! ## Fractions -/

namespace Policy

/-- What the policy knows is sound for some tuning. -/
def Tuned (p : Policy κ) : Prop :=
  ∀ kn, p.knowledge? = some kn → ∃ t, kn.Sound t

variable {p p' : Policy κ}

theorem Tuned.congr (h : p.Tuned) (hknown : p'.knowledge? = p.knowledge?) : p'.Tuned := by
  unfold Tuned
  rw [hknown]
  exact h

theorem tuned_newLru : (newLru : Policy κ).Tuned :=
  fun _ hkn => nomatch hkn

theorem tuned_newAdaptive (t : Tuning) : (newAdaptive t : Policy κ).Tuned := by
  intro kn hkn
  obtain rfl : Knowledge.initial t = kn := Option.some.inj hkn
  exact ⟨t, Knowledge.sound_initial t⟩

theorem Tuned.onMiss (h : p.Tuned) (k : κ) : (p.onMiss k).Tuned := by
  cases p with
  | lru queue => exact h
  | adaptive a =>
    intro kn hkn
    obtain ⟨t, hsound⟩ := h a.knowledge rfl
    obtain rfl : (a.onMiss k).knowledge = kn := Option.some.inj hkn
    rw [Adaptive.knowledge_onMiss]
    exact ⟨t, hsound.afterMiss _ _⟩

/-- The fraction of a tuned policy keeps to its bounds, and one step moves it by less than the whole. -/
theorem Tuned.bounds {a : Adaptive κ} (h : (Policy.adaptive a).Tuned) :
    minFraction ≤ a.fraction ∧ a.fraction ≤ maxFraction ∧ 0 < a.rate ∧ a.rate < wholePromil := by
  obtain ⟨t, hsound⟩ := h a.knowledge rfl
  have hrate : a.rate = t.validated.rate := hsound.rate_eq
  have hlegal := t.validated_legal.2.1
  rw [← hrate] at hlegal
  exact ⟨hsound.min_le, hsound.le_max, hlegal.1, hlegal.2⟩

end Policy

namespace Cache

variable {c c' : Cache κ}

theorem tuned_apply (h : c.policy.Tuned) (op : Operation κ) : (c.apply op).cache.policy.Tuned := by
  have hknown := c.knowledge?_apply op
  split at hknown
  · exact h.congr hknown
  · exact (h.onMiss _).congr hknown

/-- An eviction teaches nothing. -/
theorem tuned_beforeEviction (h : c.policy.Tuned) (op : Operation κ) :
    (c.beforeEviction op).cache.policy.Tuned := by
  refine (tuned_apply h op).congr ?_
  rw [apply_eq]
  split
  · rw [Transition.policy_evict]
    exact (Policy.knowledge?_evict _ _ _ _).symm
  · rfl

/-! ## A cache as it is -/

/-- No difference that is taken of a cache as it is falls below zero, and no step of the fraction overflows. -/
structure NoUnderflow (c : Cache κ) : Prop where
  /-- The entries in use are those that are cached less those that the policy keeps. -/
  count_le : c.policy.count ≤ c.cached.count
  size_le : c.policy.size ≤ c.cached.totalSize
  /-- The requests in vain are the requests less the hits. -/
  hits_le : c.counters.hits ≤ c.counters.requests
  /-- What one pool has as its share is taken off the total for the other. -/
  share_le : ∀ a, c.policy = .adaptive a → ∀ total, share total a.fraction ≤ total
  /-- A step up and a step down are integers of 32 bits, whether or not the step is taken. -/
  fraction_fits : ∀ a, c.policy = .adaptive a →
    Int32.minValue.toInt ≤ a.fraction - a.rate ∧ a.fraction + a.rate ≤ Int32.maxValue.toInt

theorem noUnderflow_of_owned {loose : List (κ × Sized EntryId)} (h : c.OwnedExcept loose)
    (htuned : c.policy.Tuned) (hhits : c.counters.hits ≤ c.counters.requests) : c.NoUnderflow := by
  refine ⟨h.policy_count_le, h.policy_size_le, hhits, ?_, ?_⟩
  · intro a ha total
    rw [ha] at htuned
    have hbounds := htuned.bounds
    exact RefCache.share_le total (Int.le_trans hbounds.2.1 (by decide))
  · intro a ha
    -- fraction and rate are part of a thousand, far within 32 bits
    rw [ha] at htuned
    obtain ⟨hmin, hmax, hpos, hrate⟩ := htuned.bounds
    unfold minFraction at hmin
    unfold maxFraction minFraction wholePromil at hmax
    unfold wholePromil at hrate
    change -2147483648 ≤ a.fraction - a.rate ∧ a.fraction + a.rate ≤ 2147483647
    omega

/-- What a cache has forgotten does not matter. -/
theorem NoUnderflow.forget (h : c.NoUnderflow) (hforgets : c.Forgets c') : c'.NoUnderflow := by
  constructor
  · rw [hforgets.policy_eq, hforgets.cached_eq]
    exact h.count_le
  · rw [hforgets.policy_eq, hforgets.cached_eq]
    exact h.size_le
  · rw [hforgets.counters_eq]
    exact h.hits_le
  · rw [hforgets.policy_eq]
    exact h.share_le
  · rw [hforgets.policy_eq]
    exact h.fraction_fits

/-- The running totals of a cache are machine words. -/
structure FitsWord (c : Cache κ) : Prop where
  size_lt : c.cached.totalSize < UInt64.size
  queueSize_lt : c.policy.size < UInt64.size

end Cache

/-! ## In the middle of an operation -/

namespace Asked

/-- No difference that the operation takes on its way falls below zero. -/
structure NoUnderflow (x : Asked κ) : Prop where
  at_start : x.cache.NoUnderflow
  /-- Whether there is room for a value is asked under the limits in effect, and what is in use under its key is
  part of what is in use. -/
  at_admission : ∀ s k value size observer, x.op = .store s k value size observer →
    (x.cache.start.reload s).cache.NoUnderflow ∧
      ((x.cache.start.reload s).cache.heldUnder k).1 ≤ (x.cache.start.reload s).cache.inUseCount ∧
      ((x.cache.start.reload s).cache.heldUnder k).2 ≤ (x.cache.start.reload s).cache.inUseSize
  /-- The budget of the policy and the shares of its pools are reckoned when all else has been done. -/
  at_eviction : (x.cache.beforeEviction x.op).cache.NoUnderflow
  at_end : x.after.NoUnderflow
  /-- What a trim leaves to the LFU pool is what the target leaves beside the MFU pool. -/
  trim_targets : ∀ a, x.cache.policy = .adaptive a → ∀ target,
    (a.trimTargets target).1 + (a.trimTargets target).2 = target
  /-- An entry that a client lets go of has a client. -/
  clients_pos : ∀ s id, x.op = .release s id → 0 < x.cache.entries.clients id

variable {x : Asked κ}

/-- A request that is answered is a request. -/
theorem hits_counted_le (x : Asked κ) (hhits : x.cache.counters.hits ≤ x.cache.counters.requests) :
    x.counted.hits ≤ x.counted.requests := by
  have hcounts := x.counts_counted
  have hrequest : x.isAnswered = true → x.isRequest = true := by
    unfold isAnswered isRequest
    split <;> simp
  rw [hcounts.hits_eq, hcounts.requests_eq]
  by_cases hanswered : x.isAnswered = true
  · rw [hrequest hanswered, hanswered]
    omega
  · rw [if_neg hanswered]
    omega

/-- No operation lets a difference fall below zero. -/
theorem Ready.noUnderflow (h : x.Ready) (htuned : x.cache.policy.Tuned)
    (hhits : x.cache.counters.hits ≤ x.cache.counters.requests) : x.NoUnderflow := by
  obtain ⟨keepers, hkept, haccepts⟩ := h.accepted
  have hstart := Cache.start_orderly h.owned hkept
  obtain ⟨_, hbefore⟩ := h.beforeEviction
  obtain ⟨out, _, hcounters, _⟩ := Cache.accountsFor_beforeEviction h.owned hkept h.determined
  obtain ⟨out', _, hcounters', _⟩ := h.accounts_for
  have hanswered := x.hits_counted_le hhits
  refine
    { at_start := Cache.noUnderflow_of_owned h.owned htuned hhits
      at_admission := fun s k value size observer _ => ?_
      at_eviction := ?_
      at_end := ?_
      trim_targets := fun a _ target => ?_
      clients_pos := fun s id hop => ?_ }
  · -- a reload before the admission changes nothing that is counted
    have hreload := hstart.reload s
    obtain ⟨hcount, hsize⟩ := Cache.heldUnder_spec hreload.owned k
    rw [hreload.owned.inUseCount_eq, hreload.owned.inUseSize_eq]
    refine ⟨Cache.noUnderflow_of_owned hreload.owned ?_ ?_, by omega, by omega⟩
    · rw [Transition.policy_reload]
      exact htuned
    · rw [Transition.counters_reload]
      exact hhits
  · -- an eviction starts where the operation has left the books in order
    refine Cache.noUnderflow_of_owned hbefore.owned (Cache.tuned_beforeEviction htuned x.op) ?_
    rw [hcounters]
    exact hanswered
  · refine Cache.noUnderflow_of_owned h.owned_after (Cache.tuned_apply htuned x.op) ?_
    rw [hcounters']
    exact hanswered
  · -- the first target is the difference only where the second pool is small enough
    unfold Adaptive.trimTargets
    split
    · simp
    · simp only
      omega
  · obtain ⟨c, op⟩ := x
    obtain rfl : op = .release s id := hop
    exact haccepts.1

/-! ## Totals in machine words -/

theorem sizesTakenIn_append (l l' : List (Asked κ)) :
    sizesTakenIn (l ++ l') = sizesTakenIn l + sizesTakenIn l' :=
  totalOf_append _ _ _

/-- What is cached before the eviction is what was cached before, and what was taken in. -/
theorem Ready.size_beforeEviction_le (h : x.Ready) : (x.cache.beforeEviction x.op).cache.cached.totalSize
    ≤ x.cache.cached.totalSize + bytesOf x.takenIn := by
  obtain ⟨keepers, hkept, _⟩ := h.accepted
  obtain ⟨_, _, haccounts⟩ := Cache.accountsFor_beforeEviction h.owned hkept h.determined
  exact haccounts.size_le

end Asked

namespace Cache

variable {c : Cache κ} {l : List (Asked κ)} {x : Asked κ}

/-- What is cached was taken in. -/
theorem Tallied.size_le (h : c.Tallied l) : c.cached.totalSize ≤ Asked.sizesTakenIn l := by
  have hwritten := h.bytesWritten_eq
  rw [h.acceptedBytes_eq] at hwritten
  unfold Cache.size at hwritten
  omega

theorem NoUnderflow.fitsWord (h : c.NoUnderflow) (hsize : c.cached.totalSize < UInt64.size) :
    c.FitsWord :=
  ⟨hsize, Nat.lt_of_le_of_lt h.size_le hsize⟩

end Cache

namespace Session

/-- Nothing underflows on the way of a session, and no total overflows a machine word as long as the sizes of
all values that were taken in do not. -/
structure ReckonsSoundly (log : List (Incident κ)) (s' : Session κ) : Prop where
  /-- Whatever is looked up in the cache, at whatever time. -/
  along : Along (fun l c => c.NoUnderflow ∧ (Asked.sizesTakenIn l < UInt64.size → c.FitsWord)) log s'
  /-- In the middle of every operation. -/
  amid : ∀ before (m : Session κ) op after, log = before ++ ⟨m, .asked op⟩ :: after →
    (⟨m.cache, op⟩ : Asked κ).NoUnderflow ∧
      (Asked.sizesTakenIn (asksOf before ++ [⟨m.cache, op⟩]) < UInt64.size →
        (m.cache.beforeEviction op).cache.FitsWord)
  /-- Whenever a row is taken out of a map, whichever map it is. -/
  erased : ∀ (m : SizedMap κ EntryId) (y : κ × Sized EntryId), y ∈ m.toList →
    (m.erase y.1).totalSize + y.2.size = m.totalSize

variable {s s' : Session κ} {log : List (Incident κ)}

theorem tuned_policyOf (setup : Setup κ) : (policyOf setup).Tuned := by
  unfold policyOf
  split
  · exact Policy.tuned_newLru
  · exact Policy.tuned_newAdaptive _

/-- In every session all is reckoned soundly. -/
theorem reckons_soundly (setup : Setup κ) (steps : List (Step κ)) (hsetup : setup.KeyDetermined)
    (hsteps : ∀ step ∈ steps, step.KeyDetermined) :
    ∃ log, (start setup).Unfolds [] log ((start setup).runAll steps) ∧
      askedOf log = ((start setup).runAll steps).operations.reverse ∧
      ReckonsSoundly log ((start setup).runAll steps) := by
  have hrest := atRest_start hsetup
  have htuned : (start setup).cache.policy.Tuned := by
    rw [cache_start]
    exact tuned_policyOf setup
  have hstart : (start setup).cache.NoUnderflow :=
    Cache.noUnderflow_of_owned hrest.consistent.owned htuned (by rw [cache_start]; exact Nat.le_refl 0)
  -- what is known of the policy and the counters is carried along
  obtain ⟨log, hlog, hasked, halong⟩ := exists_along
    (Q := fun l c => c.Tallied l ∧ c.policy.Tuned ∧ c.NoUnderflow)
    (fun _ c c' hforgets h => ⟨h.1.forget hforgets, hforgets.policy_eq ▸ h.2.1, h.2.2.forget hforgets⟩)
    (fun _ x hx h => ⟨h.1.ask hx, Cache.tuned_apply h.2.1 x.op, (hx.noUnderflow h.2.1 h.2.2.hits_le).at_end⟩)
    setup steps hsetup hsteps ⟨tallied_start setup, htuned, hstart⟩
  refine ⟨log, hlog.unfolds, hasked, halong.imp fun l c h => ⟨h.2.2, fun hwords => ?_⟩, ?_, ?_⟩
  · exact h.2.2.fitsWord (Nat.lt_of_le_of_lt h.1.size_le hwords)
  · intro before m op after hsplit
    obtain ⟨hbalance, hknown, hfine⟩ := halong.at_each before _ after hsplit
    have hready := hlog.unfolds.proceeds.ready_of_mem (x := ⟨m.cache, op⟩) (by simp [hsplit])
    have hnone := hready.noUnderflow hknown hfine.hits_le
    refine ⟨hnone, fun hwords => hnone.at_eviction.fitsWord ?_⟩
    have hsize := hbalance.size_le
    have hgrown := hready.size_beforeEviction_le
    -- what is in the cache by then has been taken in before, or is taken in now
    rw [Asked.sizesTakenIn_append] at hwords
    change Asked.sizesTakenIn (asksOf before) + (bytesOf (Asked.takenIn ⟨m.cache, op⟩) + 0) < _ at hwords
    dsimp only at hsize hgrown ⊢
    omega
  · exact fun m y hy => m.totalSize_erase hy

/-- A policy that remembers one key of each pool and starts at the edge of its bounds. -/
def skewed : Setup Nat where
  tuning := some { rate := 900, fraction := 900, ghostCapacity := 1 }
  limits := { maxEntries := 2, maxQueueEntries := 1 }

/-- The first value is evicted at once, since the one place in the queue is nobody's share, and a miss on it
cannot move the fraction any further. The second is superseded while it is in use, and when the third is in use
too, there is no room for the fourth. -/
def heldAtTheEdge : List (Step Nat) :=
  [.request (.put 1 { tag := "a", size := 10 } none none),
    .request (.get 1 none),
    .request (.put 2 { tag := "b", size := 20 } none (some "r")),
    .request (.put 2 { tag := "c", size := 30 } none (some "s")),
    .request (.put 3 { tag := "d", size := 40 } none (some "t")),
    .request (.put 4 { tag := "e", size := 50 } none none),
    .request (.closeRef "s"),
    .request (.get 1 none),
    .request .clear]

theorem reckons_soundly_heldAtTheEdge :
    (∃ log, (start skewed).Unfolds [] log ((start skewed).runAll heldAtTheEdge) ∧
      askedOf log = ((start skewed).runAll heldAtTheEdge).operations.reverse ∧
      ReckonsSoundly log ((start skewed).runAll heldAtTheEdge)) ∧
      ((start skewed).runAll heldAtTheEdge).cache.counters =
        { requests := 2
          insertions := 4
          bytesWritten := 100
          rejections := 1
          evictions := 2
          bytesEvicted := 40 } ∧
      ((start skewed).runAll heldAtTheEdge).cache.policy.fraction? = some 900 := by
  refine ⟨reckons_soundly skewed heldAtTheEdge (fun _ hr => nomatch hr) fun step hstep => ?_,
    by decide +kernel, by decide +kernel⟩
  simp only [heldAtTheEdge, List.mem_cons, List.not_mem_nil, or_false] at hstep
  rcases hstep with rfl | rfl | rfl | rfl | rfl | rfl | rfl | rfl | rfl
  all_goals trivial

end Session

end RefCache
