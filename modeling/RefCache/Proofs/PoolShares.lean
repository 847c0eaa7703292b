import RefCache.Proofs.Budget.WithinBudget
import RefCache.Proofs.FractionFollows

/-!
# Each pool keeps to its own share

An adaptive policy divides the room for exclusive entries between its two pools, by the fraction it has
learned so far. An eviction brings each pool down to its part, by the shortest prefix of it that has to go
and without a look at the other pool (`Adaptive.EvictsPoolwise`). So each pool keeps to its part after every
operation but a probe and a reuse, which do not evict (`Adaptive.WithinShares`).
-/

namespace RefCache

universe u

/-- A share is what rounding down leaves of the exact one. -/
theorem share_eq_floor (total : Nat) {promil : Int} (h : 0 ≤ promil) :
    (share total promil : Int) = total * promil / wholePromil := by
  have hwhole : ((wholePromil.toNat : Nat) : Int) = wholePromil := rfl
  rw [share, Int.natCast_ediv, Int.natCast_mul, Int.toNat_of_nonneg h, hwhole]

/-- Whether the policy is brought down to the shares at the end, or has nothing left to bring down. -/
def Operation.keepsShares {κ : Type u} : Operation κ → Bool
  | .probe _ | .reuse _ => false
  | _ => true

variable {κ : Type u} [Key κ]

namespace Adaptive

/-- Each pool keeps to its own part of the room for so many entries and so many bytes: the LFU pool has the
fraction of it, rounded down, and the MFU pool has the rest. -/
structure WithinShares (a : Adaptive κ) (maxCount maxSize : Nat) : Prop where
  lfuCount_le : (a.lfu.count : Int) ≤ maxCount * a.fraction / wholePromil
  lfuSize_le : (a.lfu.size : Int) ≤ maxSize * a.fraction / wholePromil
  mfuCount_le : (a.mfu.count : Int) ≤ maxCount - maxCount * a.fraction / wholePromil
  mfuSize_le : (a.mfu.size : Int) ≤ maxSize - maxSize * a.fraction / wholePromil

/-- How an eviction brings the pools down from `b` to `a`: each on its own, and by no more than it takes. -/
structure EvictsPoolwise (accesses : EntryId → Nat) (maxCount maxSize : Nat) (b a : Adaptive κ)
    (fromLfu fromMfu : List (κ × Sized EntryId)) : Prop where
  lfu : Pool.ShortestPrefix (share maxCount b.fraction) (share maxSize b.fraction)
    b.lfu.entries.toList fromLfu a.lfu.entries.toList
  mfu : Pool.ShortestPrefix (maxCount - share maxCount b.fraction) (maxSize - share maxSize b.fraction)
    b.mfu.entries.toList fromMfu a.mfu.entries.toList
  lfu_alone : ∀ other : Pool κ, ({ b with mfu := other }.evict accesses maxCount maxSize).2.lfu = a.lfu
  mfu_alone : ∀ other : Pool κ, ({ b with lfu := other }.evict accesses maxCount maxSize).2.mfu = a.mfu
  fraction_eq : a.fraction = b.fraction

variable {a b : Adaptive κ} {accesses : EntryId → Nat} {maxCount maxSize : Nat}
  {fromLfu fromMfu : List (κ × Sized EntryId)}

/-- To keep to the shares is to fit into them, pool by pool. -/
theorem withinShares_iff_fits (hmin : 0 ≤ a.fraction) (hmax : a.fraction ≤ wholePromil) :
    a.WithinShares maxCount maxSize ↔
      Pool.Fits (share maxCount a.fraction) (share maxSize a.fraction) a.lfu.entries.toList ∧
        Pool.Fits (maxCount - share maxCount a.fraction) (maxSize - share maxSize a.fraction)
          a.mfu.entries.toList := by
  have hcount := share_le maxCount hmax
  have hsize := share_le maxSize hmax
  unfold Pool.Fits
  rw [← Pool.count_eq_length, ← Pool.count_eq_length, ← Pool.size_eq_totalOf, ← Pool.size_eq_totalOf]
  constructor
  · rintro ⟨hlfuCount, hlfuSize, hmfuCount, hmfuSize⟩
    rw [← share_eq_floor _ hmin] at hlfuCount hlfuSize hmfuCount hmfuSize
    omega
  · rintro ⟨⟨hlfuCount, hlfuSize⟩, hmfuCount, hmfuSize⟩
    constructor <;> (rw [← share_eq_floor _ hmin]; omega)

/-- An eviction brings down each pool by what has to go of it. -/
theorem evict_spec (b : Adaptive κ) (accesses : EntryId → Nat) (maxCount maxSize : Nat) :
    ∃ fromLfu fromMfu, (b.evict accesses maxCount maxSize).1 = (fromLfu ++ fromMfu).map (·.2.value) ∧
      EvictsPoolwise accesses maxCount maxSize b (b.evict accesses maxCount maxSize).2 fromLfu fromMfu := by
  obtain ⟨fromLfu, hlfuIds, hlfu, _⟩ := b.lfu.trimTo_spec accesses (share maxCount b.fraction)
    (share maxSize b.fraction)
  obtain ⟨fromMfu, hmfuIds, hmfu, _⟩ := b.mfu.trimTo_spec accesses
    (maxCount - share maxCount b.fraction) (maxSize - share maxSize b.fraction)
  refine ⟨fromLfu, fromMfu, ?_, hlfu, hmfu, fun _ => rfl, fun _ => rfl, rfl⟩
  rw [List.map_append, ← hlfuIds, ← hmfuIds]
  rfl

/-- Both pools keep to their shares afterwards. -/
theorem EvictsPoolwise.withinShares (h : EvictsPoolwise accesses maxCount maxSize b a fromLfu fromMfu)
    (hmin : 0 ≤ a.fraction) (hmax : a.fraction ≤ wholePromil) : a.WithinShares maxCount maxSize := by
  have hlfu := h.lfu.fits
  have hmfu := h.mfu.fits
  rw [← h.fraction_eq] at hlfu hmfu
  exact (withinShares_iff_fits hmin hmax).2 ⟨hlfu, hmfu⟩

/-- Nothing has to go when both pools keep to their shares as they are. -/
theorem EvictsPoolwise.eq_nil (h : EvictsPoolwise accesses maxCount maxSize b a fromLfu fromMfu)
    (hmin : 0 ≤ b.fraction) (hmax : b.fraction ≤ wholePromil)
    (hwithin : b.WithinShares maxCount maxSize) : fromLfu = [] ∧ fromMfu = [] := by
  obtain ⟨hlfu, hmfu⟩ := (withinShares_iff_fits hmin hmax).1 hwithin
  exact ⟨h.lfu.eq_nil hlfu, h.mfu.eq_nil hmfu⟩

/-- Empty pools keep to every share. -/
theorem withinShares_of_items_eq_nil (hmin : 0 ≤ a.fraction) (hmax : a.fraction ≤ wholePromil)
    (h : (Policy.adaptive a).items = []) : a.WithinShares maxCount maxSize := by
  rw [Policy.items_adaptive, List.append_eq_nil_iff] at h
  rw [withinShares_iff_fits hmin hmax, h.1, h.2]
  simp [Pool.Fits]

end Adaptive

/-! ## Operations -/

/-- How the eviction at the end of an operation leaves the pools: `b` becomes `a`, with the room that there
still is afterwards. -/
structure Asked.EvictsByShares (x : Asked κ) (b a : Adaptive κ)
    (fromLfu fromMfu : List (κ × Sized EntryId)) : Prop where
  at_the_end : x.cache.apply x.op = (x.cache.beforeEviction x.op).evict
  before_eq : (x.cache.beforeEviction x.op).cache.policy = .adaptive b
  after_eq : x.after.policy = .adaptive a
  budget_eq : (x.cache.beforeEviction x.op).cache.queueBudget = x.after.queueBudget
  evicted_eq : (x.cache.beforeEviction x.op).evicted.1 = (fromLfu ++ fromMfu).map (·.2.value)
  poolwise : Adaptive.EvictsPoolwise (x.cache.beforeEviction x.op).cache.entries.accesses
    x.after.queueBudget.1 x.after.queueBudget.2 b a fromLfu fromMfu
  /-- What keeps to its shares stays. -/
  spared : b.WithinShares x.after.queueBudget.1 x.after.queueBudget.2 → fromLfu = [] ∧ fromMfu = []

namespace Cache

/-- Since the latest operation, if it is one that keeps the shares, each pool has kept to its own. -/
def SharesKept (l : List (Asked κ)) (c : Cache κ) : Prop :=
  ∀ before x, l = before ++ [x] → x.op.keepsShares = true →
    ∃ a, c.policy = .adaptive a ∧ a.WithinShares c.queueBudget.1 c.queueBudget.2

end Cache

section

variable {x : Asked κ} {c c' : Cache κ} {l : List (Asked κ)} {t : Tuning}

/-- An eviction leaves the room as it is. -/
theorem Asked.Ready.queueBudget_eq (h : x.Ready) (hevicts : x.op.evicts = true) :
    (x.cache.beforeEviction x.op).cache.queueBudget = x.after.queueBudget := by
  obtain ⟨base, horderly⟩ := h.beforeEviction
  obtain ⟨hbusy, hlimits⟩ := horderly.evict_leaves
  rw [Asked.after, Cache.apply_eq, if_pos hevicts]
  exact (Cache.queueBudget_eq horderly.owned horderly.evict.owned hbusy hlimits).symm

/-- The fraction of a policy that knows what it has learned is a part of the whole. -/
theorem Knowledge.Sound.fraction_part {kn : Knowledge} (h : kn.Sound t) :
    0 ≤ kn.fraction ∧ kn.fraction ≤ wholePromil :=
  ⟨Int.le_trans (by decide) h.min_le, Int.le_trans h.le_max (by decide)⟩

/-- The eviction at the end of an operation keeps the pools to their shares. -/
theorem Cache.Chronicle.evictsByShares (hchronicle : c.Chronicle l x.cache) (hstart : c.policy = .newAdaptive t)
    (hready : x.Ready) (hevicts : x.op.evicts = true) :
    ∃ b a fromLfu fromMfu, x.EvictsByShares b a fromLfu fromMfu := by
  -- an adaptive policy stays one, with its settings, so the eviction is that of the two halves
  obtain ⟨a, ha, hsound⟩ := (hchronicle.ask x.op).sound hstart
  let t := x.cache.beforeEviction x.op
  have hend : x.cache.apply x.op = t.evict := by rw [Cache.apply_eq, if_pos hevicts]
  have hafter : t.evicted.2 = .adaptive a := by
    rw [← t.policy_evict, ← hend]
    exact ha
  have hbudget := hready.queueBudget_eq hevicts
  cases hb : t.cache.policy with
  | lru queue =>
    rw [Transition.evicted, hb] at hafter
    simp [Policy.evict] at hafter
  | adaptive b =>
    obtain ⟨fromLfu, fromMfu, hids, hpoolwise⟩ := b.evict_spec t.cache.entries.accesses
      x.after.queueBudget.1 x.after.queueBudget.2
    have hevicted : t.evicted = ((b.evict t.cache.entries.accesses x.after.queueBudget.1
        x.after.queueBudget.2).1, .adaptive (b.evict t.cache.entries.accesses x.after.queueBudget.1
        x.after.queueBudget.2).2) := by
      rw [Transition.evicted, hb, hbudget]
      rfl
    rw [hevicted] at hafter
    obtain rfl := Policy.adaptive.inj hafter
    obtain ⟨hmin, hmax⟩ := hsound.fraction_part
    exact ⟨b, _, fromLfu, fromMfu, hend, hb, ha, hbudget, hevicted ▸ hids, hpoolwise,
      hpoolwise.eq_nil hmin hmax⟩

/-- After an operation that keeps the shares, each pool keeps to its own. -/
theorem Cache.Chronicle.withinShares_after (hchronicle : c.Chronicle l x.cache)
    (hstart : c.policy = .newAdaptive t) (hready : x.Ready) (hkeeps : x.op.keepsShares = true) :
    ∃ a, x.after.policy = .adaptive a ∧ a.knowledge.Sound t ∧
      a.WithinShares x.after.queueBudget.1 x.after.queueBudget.2 := by
  obtain ⟨a, ha, hsound⟩ := (hchronicle.ask x.op).sound hstart
  obtain ⟨hmin, hmax⟩ := hsound.fraction_part
  refine ⟨a, ha, hsound, ?_⟩
  cases hevicts : x.op.evicts with
  | true =>
    -- the eviction at the end brings each half down to its share
    obtain ⟨b, a', fromLfu, fromMfu, h⟩ := hchronicle.evictsByShares hstart hready hevicts
    obtain rfl := Policy.adaptive.inj (ha.symm.trans h.after_eq)
    exact h.poolwise.withinShares hmin hmax
  | false =>
    obtain ⟨c', op⟩ := x
    cases op with
    | clear s =>
      -- there is no eviction, and nothing left to evict
      have hitems := Cache.items_clear hready.owned s
      rw [show (c'.clear s).cache.policy = .adaptive a from ha] at hitems
      exact Adaptive.withinShares_of_items_eq_nil hmin hmax hitems
    | probe k => simp [Operation.keepsShares] at hkeeps
    | reuse k => simp [Operation.keepsShares] at hkeeps
    | _ => simp [Operation.evicts] at hevicts

/-- A cache at rest keeps its pools to their shares. -/
theorem Cache.Rests.withinShares (h : c.Rests c') {a : Adaptive κ} (ha : c.policy = .adaptive a)
    (hsound : a.knowledge.Sound t) (hwithin : a.WithinShares c.queueBudget.1 c.queueBudget.2) :
    ∃ a', c'.policy = .adaptive a' ∧ a'.WithinShares c'.queueBudget.1 c'.queueBudget.2 := by
  rcases h.contents with ⟨hcached, hpolicy⟩ | ⟨_, hpolicy⟩
  · have hbudget : c'.queueBudget = c.queueBudget := by
      simp only [Cache.queueBudget, Cache.inUseCount, Cache.inUseSize, h.limits_eq, hcached, hpolicy]
    exact ⟨a, hpolicy.trans ha, hbudget ▸ hwithin⟩
  · rw [ha] at hpolicy
    obtain ⟨hmin, hmax⟩ := hsound.fraction_part
    exact ⟨_, hpolicy, Adaptive.withinShares_of_items_eq_nil hmin hmax (Policy.items_emptied (.adaptive a))⟩

/-- As long as all is in order, the shares are kept. -/
theorem Cache.Chronicle.sharesKept (h : c.Chronicle l c') (hstart : c.policy = .newAdaptive t)
    (hready : ∀ x ∈ l, x.Ready) : c'.SharesKept l := by
  rintro before x rfl hkeeps
  obtain ⟨a, ha, hsound, hwithin⟩ :=
    h.split.1.withinShares_after hstart (hready x (by simp)) hkeeps
  exact h.rests_of_last.withinShares ha hsound hwithin

end

namespace Session

/-- In every session, each pool of an adaptive policy keeps to its own share after every operation but a
probe and a reuse, because evictions bring down each pool to its share, on its own, by what has to go. -/
theorem shares_hold (setup : Setup κ) {tuning : Tuning} (htuned : setup.tuning = some tuning)
    (steps : List (Step κ)) (hsetup : setup.KeyDetermined)
    (hsteps : ∀ step ∈ steps, step.KeyDetermined) :
    (∃ l, ((start setup).runAll steps).ChronicledFrom (start setup).cache l ∧ ∀ x ∈ l, x.Ready) ∧
      ∀ l, ((start setup).runAll steps).ChronicledFrom (start setup).cache l → (∀ x ∈ l, x.Ready) →
        Throughout (fun l c => c.SharesKept l) l ((start setup).runAll steps).cache ∧
          ∀ x ∈ l, x.op.evicts = true → ∃ b a fromLfu fromMfu, x.EvictsByShares b a fromLfu fromMfu := by
  have hstart := policy_start htuned
  refine ⟨exists_chronicle_of_keyDetermined setup steps hsetup hsteps, fun l hl hready => ⟨?_, ?_⟩⟩
  · exact throughout_of_keyDetermined setup steps hsetup hsteps hl hready fun _ _ h hready _ =>
      h.sharesKept hstart hready
  · intro x hx hevicts
    obtain ⟨before, after, rfl⟩ := List.append_of_mem hx
    exact hl.chronicle.split.1.evictsByShares hstart (hready x hx) hevicts

/-- Room for three exclusive entries, half of it for each pool. -/
def halved : Setup Nat where
  tuning := some {}
  limits := { maxQueueEntries := 3 }

/-- The second value takes the only place in the LFU pool. It is used again, which brings it into the MFU
pool, and leaves its place to the third. -/
def secondUsedAgain : List (Step Nat) :=
  [.request (.put 1 { tag := "a", size := 10 } none none),
    .request (.put 2 { tag := "b", size := 10 } none none),
    .request (.get 2 none),
    .request (.put 3 { tag := "c", size := 10 } none none)]

theorem shares_hold_secondUsedAgain :
    (∃ l, ((start halved).runAll secondUsedAgain).ChronicledFrom (start halved).cache l ∧
      Throughout (fun l c => c.SharesKept l) l ((start halved).runAll secondUsedAgain).cache) ∧
      ((start halved).runAll secondUsedAgain).cache.policy.pools.map Pool.keys = [[3], [2]] := by
  obtain ⟨⟨l, hl, hready⟩, hall⟩ := shares_hold halved rfl secondUsedAgain (fun _ hr => nomatch hr)
    fun step hstep => by
      simp only [secondUsedAgain, List.mem_cons, List.not_mem_nil, or_false] at hstep
      rcases hstep with rfl | rfl | rfl | rfl
      · trivial
      · trivial
      · trivial
      · trivial
  exact ⟨⟨l, hl, (hall l hl hready).1⟩, by decide +kernel⟩

end Session

end RefCache
