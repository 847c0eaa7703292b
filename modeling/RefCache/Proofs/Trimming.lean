import RefCache.Proofs.Budget.WithinBudget
import RefCache.Proofs.Chronicle.Uses
import RefCache.Proofs.Session.Asks

/-!
# What a trim takes out

A trim of a policy to a target takes the oldest entries out of each pool, and of a later pool only when the
pools before it hold no more bytes. It leaves no more than the target, and it stops as soon as it can: without
the last entry that went, the target would be exceeded (`Policy.TrimsLeast`).

A trim of a cache leaves no more than its target size, or what is in use where that is more. What is in use
stays, and to trim the policy once more to the same target takes nothing out (`Cache.KeepsToTarget`).
-/

namespace RefCache

universe u

variable {κ : Type u} [Key κ]

/-! ## One pool -/

namespace Pool

/-- The pool has given up the rows `out`, its oldest ones, to come down to the target, and none too many. -/
structure GivesUp (target : Nat) (pool : Pool κ) (out : List (κ × Sized EntryId)) (pool' : Pool κ) :
    Prop where
  oldest_first : pool.entries.toList = out ++ pool'.entries.toList
  size_le : pool'.size ≤ target
  needed : ∀ x ∈ out.getLast?, target < pool'.size + x.2.size

theorem trimTo_givesUp (pool : Pool κ) (accesses : EntryId → Nat) (target : Nat) :
    ∃ out, (pool.trimTo accesses pool.count target).1 = out.map (·.2.value) ∧
      pool.GivesUp target out (pool.trimTo accesses pool.count target).2 := by
  obtain ⟨out, hids, hshortest, _⟩ := pool.trimTo_spec accesses pool.count target
  rw [count_eq_length] at hids hshortest ⊢
  refine ⟨out, hids, hshortest.split, ?_, fun x hx => ?_⟩
  · rw [size_eq_totalOf]
    exact hshortest.fits.2
  · rw [size_eq_totalOf]
    exact hshortest.lt_of_getLast? hx

/-- A pool that keeps to a size as it is stays as it is. -/
theorem trimTo_of_size_le {pool : Pool κ} {target : Nat} (h : pool.size ≤ target)
    (accesses : EntryId → Nat) : pool.trimTo accesses pool.count target = ([], pool) := by
  refine trimTo_of_fits ⟨?_, ?_⟩ accesses
  · exact Nat.le_of_eq pool.count_eq_length.symm
  · rw [← size_eq_totalOf]
    exact h

namespace GivesUp

variable {target : Nat} {pool pool' : Pool κ} {out : List (κ × Sized EntryId)}

theorem size_eq (h : pool.GivesUp target out pool') :
    pool.size = totalOf (fun y => y.2.size) out + pool'.size := by
  rw [size_eq_totalOf, size_eq_totalOf, h.oldest_first, totalOf_append]

/-- Where nothing may be left, nothing is left but entries of no size. -/
theorem size_eq_zero (h : pool.GivesUp target out pool') (hzero : target = 0) :
    ∀ x ∈ pool'.entries.toList, x.2.size = 0 := by
  intro x hx
  have hsize := h.size_le
  have hle : x.2.size ≤ pool'.size := by
    rw [size_eq_totalOf]
    exact le_totalOf_of_mem (fun y : κ × Sized EntryId => y.2.size) hx
  omega

/-- A pool that is within the target gives nothing up. -/
theorem eq_nil (h : pool.GivesUp target out pool') (hle : pool.size ≤ target) : out = [] := by
  rcases List.eq_nil_or_concat out with hnil | ⟨before, x, hout⟩
  · exact hnil
  · -- the last row would not have had to go
    have hneeded := h.needed x (by simp [hout])
    have hsize := h.size_eq
    have hlast : x.2.size ≤ totalOf (fun y => y.2.size) out :=
      le_totalOf_of_mem (fun y : κ × Sized EntryId => y.2.size) (by simp [hout])
    omega

end GivesUp

end Pool

/-! ## A policy -/

namespace Policy

/-- What a trim to a target takes out of a policy: `parts` lists, in the order in which the pools are emptied,
the rows that go and what is left of the pool. -/
structure TrimsLeast (p : Policy κ) (accesses : EntryId → Nat) (target : Nat)
    (parts : List (List (κ × Sized EntryId) × Pool κ)) : Prop where
  evicted_eq : (p.trim accesses target).1 = (parts.flatMap Prod.fst).map (·.2.value)
  left_eq : (p.trim accesses target).2.pools = parts.map Prod.snd
  oldest_first : p.pools.map (·.entries.toList) = parts.map fun part => part.1 ++ part.2.entries.toList
  size_le : (p.trim accesses target).2.size ≤ target
  /-- A pool gives something up only if no entry of any size is left in the pools before it. -/
  in_order : parts.Pairwise fun part later => later.1 ≠ [] → ∀ x ∈ part.2.entries.toList, x.2.size = 0
  /-- The last entry that goes has to go. -/
  needed : ∀ x ∈ (parts.flatMap Prod.fst).getLast?, target < (p.trim accesses target).2.size + x.2.size

private theorem trimsLeast_lru (queue : Pool κ) (accesses : EntryId → Nat) (target : Nat) :
    ∃ parts, (lru queue).TrimsLeast accesses target parts := by
  obtain ⟨out, hids, hgives⟩ := queue.trimTo_givesUp accesses target
  refine ⟨[(out, (queue.trimTo accesses queue.count target).2)], ?_⟩
  constructor
  · show (queue.trimTo accesses queue.count target).1 = _
    simpa using hids
  · rfl
  · exact congrArg ([·]) hgives.oldest_first
  · exact hgives.size_le
  · exact List.pairwise_singleton _ _
  · intro x hx
    exact hgives.needed x (by simpa using hx)

private theorem trimsLeast_adaptive (a : Adaptive κ) (accesses : EntryId → Nat) (target : Nat) :
    ∃ parts, (adaptive a).TrimsLeast accesses target parts := by
  -- either nothing may be left of the first pool, or the second one stays as it is
  have htargets : (a.trimTargets target).1 = 0 ∧ (a.trimTargets target).2 = target ∧
        target ≤ a.mfu.size ∨
      (a.trimTargets target).1 + a.mfu.size = target ∧ (a.trimTargets target).2 = a.mfu.size := by
    unfold Adaptive.trimTargets
    split
    · rename_i hle
      exact .inl ⟨rfl, rfl, hle⟩
    · exact .inr ⟨by omega, rfl⟩
  obtain ⟨out, hids, hlfu⟩ := a.lfu.trimTo_givesUp accesses (a.trimTargets target).1
  obtain ⟨out', hids', hmfu⟩ := a.mfu.trimTo_givesUp accesses (a.trimTargets target).2
  refine ⟨[(out, (a.lfu.trimTo accesses a.lfu.count (a.trimTargets target).1).2),
    (out', (a.mfu.trimTo accesses a.mfu.count (a.trimTargets target).2).2)], ?_⟩
  have hevicted : ((adaptive a).trim accesses target).1
      = (a.lfu.trimTo accesses a.lfu.count (a.trimTargets target).1).1
        ++ (a.mfu.trimTo accesses a.mfu.count (a.trimTargets target).2).1 := rfl
  have hleft : ((adaptive a).trim accesses target).2.size
      = (a.lfu.trimTo accesses a.lfu.count (a.trimTargets target).1).2.size
        + (a.mfu.trimTo accesses a.mfu.count (a.trimTargets target).2).2.size := rfl
  have hlfuSize := hlfu.size_le
  have hmfuSize := hmfu.size_le
  constructor
  · rw [hevicted, hids, hids']
    simp
  · rfl
  · simp [pools, hlfu.oldest_first, hmfu.oldest_first]
  · rw [hleft]
    omega
  · -- the second pool gives something up only when nothing of the first may be left
    refine List.pairwise_pair.2 fun hgone => ?_
    rcases htargets with ⟨hzero, _⟩ | ⟨_, hstays⟩
    · exact hlfu.size_eq_zero hzero
    · exact absurd (hmfu.eq_nil (Nat.le_of_eq hstays.symm)) hgone
  · -- an entry that could have stayed would leave room that its pool did not have
    intro x hx
    rw [hleft]
    have hmfuSizeEq := hmfu.size_eq
    rcases List.eq_nil_or_concat out' with rfl | ⟨before, y, rfl⟩
    · have hneeded := hlfu.needed x (by simpa using hx)
      rw [totalOf_nil] at hmfuSizeEq
      omega
    · have hneeded := hmfu.needed x (by simpa using hx)
      have hgone : a.mfu.size ≠ (a.trimTargets target).2 := fun heq =>
        absurd (hmfu.eq_nil (Nat.le_of_eq heq)) (by simp)
      omega

theorem trimsLeast (p : Policy κ) (accesses : EntryId → Nat) (target : Nat) :
    ∃ parts, p.TrimsLeast accesses target parts := by
  cases p with
  | lru queue => exact trimsLeast_lru queue accesses target
  | adaptive a => exact trimsLeast_adaptive a accesses target

/-- A policy that keeps to the target as it is gives nothing up. -/
theorem trim_of_size_le {p : Policy κ} {target : Nat} (h : p.size ≤ target) (accesses : EntryId → Nat) :
    p.trim accesses target = ([], p) := by
  cases p with
  | lru queue =>
    show ((queue.trimTo accesses queue.count target).1, lru (queue.trimTo accesses queue.count target).2) = _
    rw [Pool.trimTo_of_size_le h]
  | adaptive a =>
    have hsize : a.lfu.size + a.mfu.size ≤ target := h
    -- a policy within the target leaves each pool within its own
    have htargets : a.lfu.size ≤ (a.trimTargets target).1 ∧ a.mfu.size ≤ (a.trimTargets target).2 := by
      unfold Adaptive.trimTargets
      split
      · exact ⟨by omega, by omega⟩
      · exact ⟨by omega, Nat.le_refl _⟩
    unfold trim Adaptive.trim
    dsimp only
    rw [Pool.trimTo_of_size_le htargets.1, Pool.trimTo_of_size_le htargets.2]
    rfl

end Policy

/-! ## The cache -/

namespace Cache

/-- What a trim by a ratio leaves of a cache. -/
structure KeepsToTarget (c : Cache κ) (w : Surroundings) (pressure : Pressure) (ratio : Float) : Prop where
  size_le : (c.trim w pressure ratio).cache.size ≤ max (Ratio.remaining ratio c.size) c.inUseSize
  /-- What is in use stays cached, and in its order. -/
  busy_eq : (c.trim w pressure ratio).cache.busy = c.busy
  /-- There is nothing left to trim. -/
  trim_eq : ∀ accesses, (c.trim w pressure ratio).cache.policy.trim accesses (c.trimTarget ratio)
    = ([], (c.trim w pressure ratio).cache.policy)

theorem OwnedExcept.keepsToTarget {c : Cache κ} (howned : c.Owned) (w : Surroundings) (pressure : Pressure)
    (ratio : Float) : c.KeepsToTarget w pressure ratio := by
  have hlog := (start_orderly howned c.keepsOrphans_range).log (.trimming pressure ratio (c.trimTarget ratio))
  have hyield := c.policy.trim_yields c.entries.accesses (c.trimTarget ratio)
  let call : PolicyCall κ := .trim (c.trimTarget ratio)
    (c.entries.keys (c.policy.trim c.entries.accesses (c.trimTarget ratio)).1)
  have htrimmed := hlog.yield hyield call
  -- what the trim takes out, and what the limits take out after it
  have hbusy : (c.trim w pressure ratio).cache.busy = c.busy :=
    ((htrimmed.reload w).evict_leaves.1.trans (Transition.busy_reload _ w)).trans
      (hlog.yield_leaves hyield call).1
  have hsize : (c.trim w pressure ratio).cache.policy.size ≤ c.trimTarget ratio := by
    obtain ⟨_, hleast⟩ := c.policy.trimsLeast c.entries.accesses (c.trimTarget ratio)
    refine Nat.le_trans ?_ hleast.size_le
    have hpolicy := c.policy_apply (.trim w pressure ratio)
    rw [if_pos (show (Operation.trim w pressure ratio : Operation κ).evicts = true from rfl)] at hpolicy
    show (c.apply (.trim w pressure ratio)).cache.policy.size ≤ _
    rw [hpolicy]
    refine Nat.le_trans (Policy.evict_yields _ _ _ _).size_le ?_
    rw [policy_beforeEviction]
    exact Nat.le_refl _
  have hafter : (c.trim w pressure ratio).cache.Owned := (htrimmed.reload w).evict.owned
  refine ⟨?_, hbusy, fun accesses => Policy.trim_of_size_le hsize accesses⟩
  have hsizeEq := hafter.size_eq
  rw [totalOf_nil, hbusy, ← howned.inUseSize_eq] at hsizeEq
  unfold trimTarget at hsize
  omega

end Cache

/-! ## Every session -/

namespace Session

/-- In every session, at any moment, a trim takes out the oldest entries of the first pools and no more of them
than it has to, whatever the target, and a cache that is trimmed keeps to its target size. -/
theorem trim_takes_least (setup : Setup κ) (steps : List (Step κ)) (hsetup : setup.KeyDetermined)
    (hsteps : ∀ step ∈ steps, step.KeyDetermined) :
    ∃ log, (start setup).Unfolds [] log ((start setup).runAll steps) ∧
      askedOf log = ((start setup).runAll steps).operations.reverse ∧
      Along (fun _ c => (∀ accesses target, ∃ parts, c.policy.TrimsLeast accesses target parts) ∧
        ∀ w pressure ratio, c.KeepsToTarget w pressure ratio) log ((start setup).runAll steps) := by
  obtain ⟨log, hlog, hasked, halong⟩ := exists_along (Q := fun _ c => c.Owned)
    (fun _ _ _ hforgets howned => hforgets.owned howned) (fun _ _ hready _ => hready.owned_after)
    setup steps hsetup hsteps (atRest_start hsetup).consistent.owned
  exact ⟨log, hlog.unfolds, hasked, halong.imp fun _ c howned =>
    ⟨c.policy.trimsLeast, fun w pressure ratio => howned.keepsToTarget w pressure ratio⟩⟩

/-- Two halves of the same size. -/
def inHalves : Setup Nat where
  tuning := some { fraction := 500 }

/-- One value is used twice, two values once, one of them of no size, and a fourth one is held. -/
def twiceUsedAndOthers : List (Step Nat) :=
  [.request (.put 1 { tag := "a", size := 10 } none none), .request (.get 1 none),
    .request (.put 2 { tag := "b", size := 10 } none none),
    .request (.put 3 { tag := "c", size := 0 } none none),
    .request (.put 4 { tag := "d", size := 10 } none (some "r"))]

/-- A target of fifteen bytes costs the oldest value of the first half. To come down to five, the value used twice
has to go as well, and what is left of the first half then has no size. -/
theorem trim_takes_least_twiceUsedAndOthers :
    (∃ log, (start inHalves).Unfolds [] log ((start inHalves).runAll twiceUsedAndOthers) ∧
      askedOf log = ((start inHalves).runAll twiceUsedAndOthers).operations.reverse ∧
      Along (fun _ c => (∀ accesses target, ∃ parts, c.policy.TrimsLeast accesses target parts) ∧
        ∀ w pressure ratio, c.KeepsToTarget w pressure ratio) log
          ((start inHalves).runAll twiceUsedAndOthers)) ∧
      ((start inHalves).runAll twiceUsedAndOthers).cache.policy.pools.map Pool.keys = [[2, 3], [1]] ∧
      (((start inHalves).runAll twiceUsedAndOthers).cache.policy.trim (fun _ => 0) 15).2.pools.map Pool.keys
        = [[3], [1]] ∧
      (((start inHalves).runAll twiceUsedAndOthers).cache.policy.trim (fun _ => 0) 5).2.pools.map Pool.keys
        = [[3], []] := by
  refine ⟨trim_takes_least inHalves twiceUsedAndOthers (fun _ hr => nomatch hr) fun step hstep => ?_,
    by decide +kernel, by decide +kernel, by decide +kernel⟩
  simp only [twiceUsedAndOthers, List.mem_cons, List.not_mem_nil, or_false] at hstep
  rcases hstep with rfl | rfl | rfl | rfl | rfl <;> trivial

end Session

end RefCache
