import RefCache.Proofs.Budget.Capped
import RefCache.Proofs.Session.Reachable

/-!
# Limits hold, in every session

The limits in effect bound the exclusive entries in every session that can be reached, whatever limits
have been offered on the way. They bound the whole cache as long as the same limits have been offered
all the time: a cache in use is not cut down when the limits shrink.
-/

namespace RefCache

universe u

variable {κ : Type u} [Key κ]

namespace Session

/-- The exclusive entries keep to the limits of the eviction queue, and to what the entries in use leave
of the limits of the cache. -/
structure QueueWithinLimits (s : Session κ) : Prop where
  count_le : s.cache.policy.count
    ≤ min s.cache.limits.maxQueueEntries (s.cache.limits.maxEntries - s.cache.inUseCount)
  size_le : s.cache.policy.size
    ≤ min s.cache.limits.maxQueueSize (s.cache.limits.maxSize - s.cache.inUseSize)

/-- The cache as a whole keeps to its limits. -/
structure CacheWithinLimits (s : Session κ) : Prop where
  count_le : s.cache.count ≤ s.cache.limits.maxEntries
  size_le : s.cache.size ≤ s.cache.limits.maxSize

theorem sharesFit_policyOf (setup : Setup κ) : (policyOf setup).SharesFit := by
  unfold policyOf
  split
  · exact Policy.sharesFit_newLru
  · exact Policy.sharesFit_newAdaptive _

/-- What becomes of the cache of a new session keeps its policy within the budget. -/
theorem withinBudget_of_trace {setup : Setup κ} {c : Cache κ} {ops : List (Operation κ)}
    (htrace : (start setup).cache.Trace ops c) : c.WithinBudget := by
  rw [cache_start] at htrace
  exact htrace.withinBudget (owned_create _ (items_policyOf setup) _)
    (Cache.withinBudget_of_items_eq_nil (items_policyOf setup)) (sharesFit_policyOf setup)

/-- What becomes of the cache of a new session under constant limits keeps to them. -/
theorem capped_of_trace {setup : Setup κ} {c : Cache κ}
    (htrace : (start setup).cache.TraceUnder (· = setup.limits) c) : c.Capped setup.limits := by
  obtain ⟨ops, htrace, hops⟩ := htrace
  rw [cache_start] at htrace
  exact htrace.capped (owned_create _ (items_policyOf setup) _) (sharesFit_policyOf setup)
    ⟨rfl, Nat.zero_le _, Nat.zero_le _⟩ hops

/-- The limits in effect bound the exclusive entries of every session that can be reached, and the whole
cache where no other limits than the first have ever been offered. -/
theorem limits_hold (setup : Setup κ) (steps : List (Step κ)) (hsetup : setup.KeyDetermined)
    (hsteps : ∀ step ∈ steps, step.KeyDetermined) :
    ((start setup).runAll steps).QueueWithinLimits ∧
      ((∀ step ∈ steps, ∀ limits, step.offers? = some limits → limits = setup.limits) →
        ((start setup).runAll steps).CacheWithinLimits) := by
  have hrest := atRest_start hsetup
  refine ⟨?_, fun hoffers => ?_⟩
  · obtain ⟨_, ops, htrace⟩ := hrest.trace_runAll steps hsteps
    have hbudget := withinBudget_of_trace htrace
    exact ⟨hbudget.count_le, hbudget.size_le⟩
  · have hadvances := hrest.runAll steps hsteps hoffers rfl
    have hcapped := capped_of_trace hadvances.trace
    exact ⟨hcapped.limits_eq ▸ hcapped.count_le, hcapped.limits_eq ▸ hcapped.size_le⟩

/-- Room for three values of ten in the cache, and for one exclusive one. -/
def narrow : Setup Nat where
  limits := { maxEntries := 3, maxSize := 30, maxQueueEntries := 1 }

/-- Three values are cached one after the other, and only the first is held on to. -/
def oneHeldTwoLetGo : List (Step Nat) :=
  [.request (.put 1 { tag := "a", size := 10 } none (some "r")),
    .request (.put 2 { tag := "b", size := 10 } none none),
    .request (.put 3 { tag := "c", size := 10 } none none)]

theorem limits_hold_oneHeldTwoLetGo :
    ((start narrow).runAll oneHeldTwoLetGo).QueueWithinLimits ∧
      ((start narrow).runAll oneHeldTwoLetGo).CacheWithinLimits ∧
      ((start narrow).runAll oneHeldTwoLetGo).cache.policy.count = 1 ∧
      ((start narrow).runAll oneHeldTwoLetGo).cache.count = 2 := by
  have hlimits := limits_hold narrow oneHeldTwoLetGo (fun _ hr => nomatch hr) fun step hstep => by
    simp only [oneHeldTwoLetGo, List.mem_cons, List.not_mem_nil, or_false] at hstep
    rcases hstep with rfl | rfl | rfl
    · trivial
    · trivial
    · trivial
  refine ⟨hlimits.1, hlimits.2 fun step hstep limits hoffers => ?_, by decide +kernel,
    by decide +kernel⟩
  simp only [oneHeldTwoLetGo, List.mem_cons, List.not_mem_nil, or_false] at hstep
  rcases hstep with rfl | rfl | rfl
  · exact nomatch hoffers
  · exact nomatch hoffers
  · exact nomatch hoffers

end Session

end RefCache
