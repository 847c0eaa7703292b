import RefCache.Proofs.LimitsHold
import RefCache.Proofs.CounterBalance

/-!
# Machine words suffice

The limits are compared with totals, and differences of totals, that are kept in machine words. A total may be
more than a word can hold as long as an operation lasts: a new value comes in before anything is evicted for it.
Nothing goes wrong all the same. The limits are words, so whatever is cached at rest fits into a word
(`Cache.Trace.bounded`); and in the middle of an operation what is in use fits, what the policy keeps fits, and
the difference of two words is right where it fits, whether or not the words have wrapped around.

* `Ready.wordsSuffice_beforeEviction`: when an operation is about to evict
* `words_suffice`: all along every session
-/

namespace RefCache

universe u

variable {κ : Type u} [Key κ]

/-- The limits on the whole cache are machine words. -/
def Limits.FitWords (limits : Limits) : Prop :=
  limits.maxEntries ≤ unlimited ∧ limits.maxSize ≤ unlimited

theorem lt_wordSize_of_le {n : Nat} (h : n ≤ unlimited) : n < UInt64.size :=
  Nat.lt_of_le_of_lt h (by decide)

namespace Cache

/-- What is compared with the limits is the same in machine words: what the policy keeps, and what is in use. -/
structure WordsSuffice (c : Cache κ) : Prop where
  policyCount_eq : (UInt64.ofNat c.policy.count).toNat = c.policy.count
  policySize_eq : c.policy.sizeInBytes.toNat = c.policy.size
  inUseCount_eq : (UInt64.ofNat c.cached.count - UInt64.ofNat c.policy.count).toNat = c.inUseCount
  inUseSize_eq : (c.cached.sizeInBytes - c.policy.sizeInBytes).toNat = c.inUseSize

/-- The cache and its limits are within what words can name, and keep to it. -/
structure InWords (c : Cache κ) : Prop where
  bounded : c.Bounded unlimited unlimited
  sharesFit : c.policy.SharesFit
  wordsSuffice : c.WordsSuffice

variable {c c' : Cache κ}

/-- It is enough that what the policy keeps and what is in use fit into words, each for itself. -/
theorem wordsSuffice_of_le (howned : c.Owned) (hpolicyCount : c.policy.count ≤ unlimited)
    (hpolicySize : c.policy.size ≤ unlimited) (hbusyCount : c.busy.length ≤ unlimited)
    (hbusySize : totalOf (fun x => x.2.size) c.busy ≤ unlimited) : c.WordsSuffice := by
  have hcountLe := howned.policy_count_le
  have hsizeLe := howned.policy_size_le
  rw [← howned.inUseCount_eq, inUseCount, wordSub_of_le hcountLe] at hbusyCount
  rw [← howned.inUseSize_eq, inUseSize, wordSub_of_le hsizeLe] at hbusySize
  constructor
  · exact UInt64.toNat_ofNat_of_lt' (lt_wordSize_of_le hpolicyCount)
  · rw [Policy.sizeInBytes_eq]
    exact UInt64.toNat_ofNat_of_lt' (lt_wordSize_of_le hpolicySize)
  · exact toNat_ofNat_sub (lt_wordSize_of_le hpolicyCount) (lt_wordSize_of_le hbusyCount)
  · rw [SizedMap.sizeInBytes_eq, Policy.sizeInBytes_eq]
    exact toNat_ofNat_sub (lt_wordSize_of_le hpolicySize) (lt_wordSize_of_le hbusySize)

/-- It is also enough that all that is cached fits. -/
theorem wordsSuffice_of_total_le (howned : c.Owned) (hcount : c.count ≤ unlimited) (hsize : c.size ≤ unlimited) :
    c.WordsSuffice := by
  have hcountEq := howned.count_eq
  have hsizeEq := howned.size_eq
  exact wordsSuffice_of_le howned (by omega) (by omega) (by omega) (by omega)

theorem Bounded.inWords (h : c.Bounded unlimited unlimited) (howned : c.Owned) (hshares : c.policy.SharesFit) :
    c.InWords :=
  ⟨h, hshares, wordsSuffice_of_total_le howned h.count_le h.size_le⟩

/-- The total of what is cached at rest is shown as it is. -/
theorem InWords.sizeInBytes_eq (h : c.InWords) : c.cached.sizeInBytes.toNat = c.size :=
  c.cached.toNat_sizeInBytes_eq_iff.2 (lt_wordSize_of_le h.bounded.size_le)

/-- What a cache has forgotten does not matter. -/
theorem InWords.forget (h : c.InWords) (hforgets : c.Forgets c') : c'.InWords := by
  obtain ⟨⟨hentries, hbytes, hcount, hsize⟩, hshares, hpolicyCount, hpolicySize, hinUseCount, hinUseSize⟩ := h
  constructor
  · constructor
    · rwa [hforgets.limits_eq]
    · rwa [hforgets.limits_eq]
    · rwa [count, hforgets.cached_eq]
    · rwa [size, hforgets.cached_eq]
  · rwa [hforgets.policy_eq]
  · constructor
    · rwa [hforgets.policy_eq]
    · rwa [hforgets.policy_eq]
    · rwa [inUseCount, hforgets.cached_eq, hforgets.policy_eq]
    · rwa [inUseSize, hforgets.cached_eq, hforgets.policy_eq]

end Cache

namespace Asked

variable {x : Asked κ}

/-- Where a value comes in, the policy is left with no more than was cached before, and what is in use was
admitted. -/
private theorem wordsSuffice_of_admits {c : Cache κ} {s : Surroundings} {k : κ} {value : ValueId} {size : Nat}
    {observer : Option String} (h : (⟨c, .store s k value size observer⟩ : Asked κ).Ready)
    (hbounded : c.Bounded unlimited unlimited) (hoffered : s.offered.FitWords)
    (hadmits : (c.start.reload s).cache.admits k size = true) :
    (c.beforeEviction (.store s k value size observer)).cache.WordsSuffice := by
  obtain ⟨keepers, hkept, _⟩ := h.accepted
  obtain ⟨_, hbefore⟩ := h.beforeEviction
  obtain ⟨_, _, haccounts⟩ := Cache.accountsFor_beforeEviction h.owned hkept h.determined
  obtain ⟨hfitsCount, hfitsSize⟩ :=
    Cache.busy_le_of_admits h.owned hkept (hbounded.reload hoffered.1 hoffered.2) hadmits
  have hbusy : (c.beforeEviction (.store s k value size observer)).cache.busy = _ :=
    Cache.busy_beforeEviction_of_admits h.owned hkept hadmits
  have htaken : (⟨c, .store s k value size observer⟩ : Asked κ).takenIn
      = [(k, ⟨((c.start.reload s).supersede k).cache.entries.next, size⟩)] := by
    show (c.store s k value size observer).1.toList.map _ = _
    rw [Cache.store_fst_ite, if_pos hadmits]
    rfl
  -- of what is cached, what is in use is all that may be new
  have hcount := haccounts.count_le
  have hsize := haccounts.size_le
  have hcountEq := hbefore.owned.count_eq
  have hsizeEq := hbefore.owned.size_eq
  rw [htaken, List.length_singleton] at hcount
  rw [htaken, bytesOf, totalOf_cons, totalOf_nil, Nat.add_zero] at hsize
  rw [hbusy, List.length_append, List.length_singleton] at hcountEq
  rw [hbusy, totalOf_append, totalOf_cons, totalOf_nil, Nat.add_zero] at hsizeEq
  dsimp only at hcount hsize hcountEq hsizeEq
  have hboundedCount := hbounded.count_le
  have hboundedSize := hbounded.size_le
  exact Cache.wordsSuffice_of_le hbefore.owned (by omega) (by omega) hfitsCount hfitsSize

/-- An operation that is offered limits in words leaves a cache in words. -/
theorem Ready.inWords_after (h : x.Ready) (hwords : x.cache.InWords)
    (hoffered : x.op.OfferedUnder Limits.FitWords) : x.after.InWords := by
  obtain ⟨keepers, hkept, _⟩ := h.accepted
  exact (hwords.bounded.apply h.owned hkept hwords.sharesFit hoffered).inWords h.owned_after
    ((x.cache.keeps_apply x.op).shares hwords.sharesFit)

/-- When an operation is about to evict, what is in use fits into words, and so does what the policy keeps; what
is cached need not. -/
theorem Ready.wordsSuffice_beforeEviction (h : x.Ready) (hbounded : x.cache.Bounded unlimited unlimited)
    (hoffered : x.op.OfferedUnder Limits.FitWords) :
    (x.cache.beforeEviction x.op).cache.WordsSuffice := by
  obtain ⟨keepers, hkept, _⟩ := h.accepted
  obtain ⟨_, hbefore⟩ := h.beforeEviction
  obtain ⟨_, _, haccounts⟩ := Cache.accountsFor_beforeEviction h.owned hkept h.determined
  -- an operation that takes nothing in has no more cached than before
  have hnothing : x.takenIn = [] → (x.cache.beforeEviction x.op).cache.WordsSuffice := by
    intro htaken
    have hcount := haccounts.count_le
    have hsize := haccounts.size_le
    rw [htaken] at hcount hsize
    exact Cache.wordsSuffice_of_total_le hbefore.owned (Nat.le_trans hcount hbounded.count_le)
      (Nat.le_trans hsize hbounded.size_le)
  obtain ⟨c, op⟩ := x
  cases op with
  | store s k value size observer =>
    cases hadmits : (c.start.reload s).cache.admits k size with
    | true => exact wordsSuffice_of_admits h hbounded (hoffered s rfl) hadmits
    | false =>
      refine hnothing ?_
      show (c.store s k value size observer).1.toList.map _ = []
      rw [Cache.store_fst_ite, if_neg (by rw [hadmits]; exact Bool.false_ne_true)]
      rfl
  | _ => exact hnothing rfl

end Asked

namespace Session

/-- All that is compared with the limits of the cache is right in machine words. -/
structure ReckonsInWords (log : List (Incident κ)) (s' : Session κ) : Prop where
  /-- Between operations, where the total of what is cached is right as well. -/
  along : Along (fun _ c => c.WordsSuffice ∧ c.cached.sizeInBytes.toNat = c.size) log s'
  /-- In the middle of every operation, when it decides how much to evict. -/
  amid : ∀ before (m : Session κ) op after, log = before ++ ⟨m, .asked op⟩ :: after →
    (m.cache.beforeEviction op).cache.WordsSuffice

variable {log : List (Incident κ)} {s' : Session κ}

/-- Under limits that are words themselves, every session can be reckoned in machine words, however much is
cached in the course of it. -/
theorem words_suffice (setup : Setup κ) (steps : List (Step κ)) (hsetup : setup.KeyDetermined)
    (hsteps : ∀ step ∈ steps, step.KeyDetermined) (hlimits : setup.limits.FitWords)
    (hoffers : ∀ step ∈ steps, ∀ limits, step.offers? = some limits → limits.FitWords) :
    ∃ log, (start setup).Unfolds [] log ((start setup).runAll steps) ∧
      askedOf log = ((start setup).runAll steps).operations.reverse ∧
      ReckonsInWords log ((start setup).runAll steps) := by
  have hrest := atRest_start hsetup
  have hbounded : (start setup).cache.Bounded unlimited unlimited := by
    rw [cache_start]
    exact ⟨hlimits.1, hlimits.2, Nat.zero_le _, Nat.zero_le _⟩
  have hshares : (start setup).cache.policy.SharesFit := by
    rw [cache_start]
    exact sharesFit_policyOf setup
  have hadvances := hrest.runAll steps hsteps hoffers hlimits
  -- the bound is kept as long as the operations are offered limits that are words
  obtain ⟨log, hlog, hasked, halong⟩ := exists_along
    (Q := fun l c => (∀ x ∈ l, x.op.OfferedUnder Limits.FitWords) → c.InWords)
    (fun _ _ _ hforgets h hl => (h hl).forget hforgets)
    (fun _ x hx h hl => hx.inWords_after (h fun y hy => hl y (List.mem_append_left _ hy)) (hl x (by simp)))
    setup steps hsetup hsteps fun _ => hbounded.inWords hrest.consistent.owned hshares
  have hall : ∀ x ∈ asksOf log, x.op.OfferedUnder Limits.FitWords := by
    intro x hx
    have hmem := op_mem_askedOf hx
    rw [hasked, List.mem_reverse] at hmem
    exact (hadvances.operations _ hmem).resolve_left fun hnone => nomatch hnone
  refine ⟨log, hlog.unfolds, hasked, halong.imp_of_mem fun l c hl h => ?_, ?_⟩
  · have hwords := h fun x hx => hall x (hl x hx)
    exact ⟨hwords.wordsSuffice, hwords.sizeInBytes_eq⟩
  · intro before m op after hsplit
    have hmem : (⟨m.cache, op⟩ : Asked κ) ∈ asksOf log := by simp [hsplit]
    have hwords := halong.at_each before _ after hsplit fun x hx =>
      hall x (by rw [hsplit, asksOf_append]; exact List.mem_append_left _ hx)
    exact (hlog.unfolds.proceeds.ready_of_mem hmem).wordsSuffice_beforeEviction hwords.bounded (hall _ hmem)

end Session

end RefCache
