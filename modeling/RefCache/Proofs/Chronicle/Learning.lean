import RefCache.Proofs.Chronicle.Uses

/-!
# What the adaptive policy learns

The `Knowledge` of an adaptive policy are its fraction, the settings that decide how it moves, and the
counters of ghost hits and of steps taken. Only requests in vain add to it (`Cache.knowledge?_apply`): what
one of them adds depends on whether the ghosts know the key (`Adaptive.knowledge_onMiss`).
-/

namespace RefCache

universe u

/-- What an adaptive policy has learned, and by which rate it learns. -/
structure Knowledge where
  fraction : Int
  rate : Int
  threshold : Nat
  increases : Nat
  decreases : Nat
  lfuGhostHits : Nat
  mfuGhostHits : Nat
deriving DecidableEq, Repr

namespace Knowledge

/-- The fraction has grown by a step, if that does not take it too far. -/
def grown (kn : Knowledge) : Knowledge :=
  if kn.fraction + kn.rate ≤ maxFraction then
    { kn with fraction := kn.fraction + kn.rate, increases := kn.increases + 1 }
  else kn

/-- The fraction has shrunk by a step, if that does not take it too far. -/
def shrunk (kn : Knowledge) : Knowledge :=
  if minFraction ≤ kn.fraction - kn.rate then
    { kn with fraction := kn.fraction - kn.rate, decreases := kn.decreases + 1 }
  else kn

/-- A request in vain, for a key that the ghosts of the one or the other pool know, or neither. -/
def afterMiss (kn : Knowledge) (inLfu inMfu : Bool) : Knowledge :=
  if inLfu then { kn with lfuGhostHits := kn.lfuGhostHits + 1 }.grown
  else if inMfu then { kn with mfuGhostHits := kn.mfuGhostHits + 1 }.shrunk
  else kn

/-- The knowledge at the beginning, under legal settings. -/
def initial (t : Tuning) : Knowledge where
  fraction := t.validated.fraction
  rate := t.validated.rate
  threshold := t.validated.threshold.toNat
  increases := 0
  decreases := 0
  lfuGhostHits := 0
  mfuGhostHits := 0

/-- The settings are those of the tuning, and the fraction is as far from where it was at first as the steps
taken say, within its bounds. -/
structure Sound (t : Tuning) (kn : Knowledge) : Prop where
  rate_eq : kn.rate = t.validated.rate
  threshold_eq : kn.threshold = t.validated.threshold.toNat
  fraction_eq : kn.fraction
    = t.validated.fraction + t.validated.rate * ((kn.increases : Int) - kn.decreases)
  min_le : minFraction ≤ kn.fraction
  le_max : kn.fraction ≤ maxFraction

variable {t : Tuning} {kn : Knowledge}

theorem sound_initial (t : Tuning) : (initial t).Sound t where
  rate_eq := rfl
  threshold_eq := rfl
  fraction_eq := by simp [initial]
  min_le := t.validated_legal.1.1
  le_max := t.validated_legal.1.2

/-- A step is taken in full or not at all, and only if it stays within the bounds. -/
theorem Sound.grown (h : kn.Sound t) : kn.grown.Sound t := by
  have hrate := t.validated_legal.2.1.1
  unfold Knowledge.grown
  split
  · rename_i hlegal
    refine ⟨h.rate_eq, h.threshold_eq, ?_, ?_, hlegal⟩
    · -- one more step up is one more rate from the initial fraction
      have hstep : ((kn.increases + 1 : Nat) : Int) - kn.decreases
          = ((kn.increases : Int) - kn.decreases) + 1 := by omega
      rw [hstep, Int.mul_add, Int.mul_one, ← Int.add_assoc, ← h.fraction_eq, ← h.rate_eq]
    · have := h.min_le
      have := h.rate_eq
      dsimp only
      omega
  · exact h

theorem Sound.shrunk (h : kn.Sound t) : kn.shrunk.Sound t := by
  have hrate := t.validated_legal.2.1.1
  unfold Knowledge.shrunk
  split
  · rename_i hlegal
    refine ⟨h.rate_eq, h.threshold_eq, ?_, hlegal, ?_⟩
    · -- one more step down is one rate less
      have hstep : (kn.increases : Int) - ((kn.decreases + 1 : Nat) : Int)
          = ((kn.increases : Int) - kn.decreases) - 1 := by omega
      rw [hstep, Int.mul_sub, Int.mul_one, ← Int.add_sub_assoc, ← h.fraction_eq, ← h.rate_eq]
    · have := h.le_max
      have := h.rate_eq
      dsimp only
      omega
  · exact h

theorem Sound.afterMiss (h : kn.Sound t) (inLfu inMfu : Bool) : (kn.afterMiss inLfu inMfu).Sound t := by
  unfold Knowledge.afterMiss
  split
  · exact Sound.grown ⟨h.rate_eq, h.threshold_eq, h.fraction_eq, h.min_le, h.le_max⟩
  · split
    · exact Sound.shrunk ⟨h.rate_eq, h.threshold_eq, h.fraction_eq, h.min_le, h.le_max⟩
    · exact h

theorem fraction_grown (kn : Knowledge) : kn.grown.fraction
    = if kn.fraction + kn.rate ≤ maxFraction then kn.fraction + kn.rate else kn.fraction := by
  unfold grown
  split <;> rfl

theorem fraction_shrunk (kn : Knowledge) : kn.shrunk.fraction
    = if minFraction ≤ kn.fraction - kn.rate then kn.fraction - kn.rate else kn.fraction := by
  unfold shrunk
  split <;> rfl

/-- A step of the fraction is no ghost hit. -/
@[simp] theorem hits_grown (kn : Knowledge) :
    kn.grown.lfuGhostHits = kn.lfuGhostHits ∧ kn.grown.mfuGhostHits = kn.mfuGhostHits := by
  unfold grown
  split <;> exact ⟨rfl, rfl⟩

@[simp] theorem hits_shrunk (kn : Knowledge) :
    kn.shrunk.lfuGhostHits = kn.lfuGhostHits ∧ kn.shrunk.mfuGhostHits = kn.mfuGhostHits := by
  unfold shrunk
  split <;> exact ⟨rfl, rfl⟩

/-- A ghost hit is counted whether or not the fraction moves. -/
theorem hits_afterMiss (kn : Knowledge) (inLfu inMfu : Bool) :
    (kn.afterMiss inLfu inMfu).lfuGhostHits = kn.lfuGhostHits + (if inLfu then 1 else 0) ∧
      (kn.afterMiss inLfu inMfu).mfuGhostHits
        = kn.mfuGhostHits + (if !inLfu && inMfu then 1 else 0) := by
  unfold afterMiss
  cases inLfu <;> cases inMfu <;> simp

end Knowledge

variable {κ : Type u} [Key κ]

namespace Pool

/-- The ghost of a key is hit when the pool remembers the key. -/
theorem ghostHit_fst (p : Pool κ) (k : κ) : (p.ghostHit k).1 = (p.ghosts.get? k).isSome := by
  unfold ghostHit
  cases hk : p.ghosts.get? k with
  | none => rw [History.refresh_of_none hk]
  | some n =>
    have hrefresh := History.refresh_of_some hk (· + 1)
    dsimp only
    rw [hrefresh.1]
    rfl

end Pool

namespace Adaptive

/-- What the policy knows. -/
def knowledge (a : Adaptive κ) : Knowledge where
  fraction := a.fraction
  rate := a.rate
  threshold := a.threshold
  increases := a.counters.fractionIncreases
  decreases := a.counters.fractionDecreases
  lfuGhostHits := a.counters.lfuGhostHits
  mfuGhostHits := a.counters.mfuGhostHits

theorem knowledge_growFraction (a : Adaptive κ) : a.growFraction.knowledge = a.knowledge.grown := by
  unfold growFraction Knowledge.grown
  split
  · exact (if_pos ‹_›).symm
  · exact (if_neg ‹_›).symm

theorem knowledge_shrinkFraction (a : Adaptive κ) :
    a.shrinkFraction.knowledge = a.knowledge.shrunk := by
  unfold shrinkFraction Knowledge.shrunk
  split
  · exact (if_pos ‹_›).symm
  · exact (if_neg ‹_›).symm

/-- The ghosts of the LFU pool come first. -/
theorem knowledge_onMiss (a : Adaptive κ) (k : κ) : (a.onMiss k).knowledge
    = a.knowledge.afterMiss (a.lfu.ghosts.get? k).isSome (a.mfu.ghosts.get? k).isSome := by
  rw [← a.lfu.ghostHit_fst, ← a.mfu.ghostHit_fst]
  unfold onMiss Knowledge.afterMiss
  dsimp only
  split
  · exact knowledge_growFraction _
  · split
    · exact knowledge_shrinkFraction _
    · rfl

end Adaptive

namespace Policy

/-- What a policy that learns knows. -/
def knowledge? : Policy κ → Option Knowledge
  | lru _ => none
  | adaptive a => some a.knowledge

/-- A policy that learns nothing has a single queue. -/
theorem exists_queue {p : Policy κ} (h : p.knowledge? = none) : ∃ queue, p = .lru queue := by
  cases p with
  | lru queue => exact ⟨queue, rfl⟩
  | adaptive a => exact nomatch h

/-- A policy that knows something is adaptive. -/
theorem exists_adaptive {p : Policy κ} {kn : Knowledge} (h : p.knowledge? = some kn) :
    ∃ a, p = .adaptive a ∧ a.knowledge = kn := by
  cases p with
  | lru queue => exact nomatch h
  | adaptive a => exact ⟨a, rfl, Option.some.inj h⟩

/-! ## Nothing is learned from exclusive entries -/

@[simp] theorem knowledge?_remove (p : Policy κ) (k : κ) :
    (p.remove k).2.knowledge? = p.knowledge? := by
  cases p <;> rfl

@[simp] theorem knowledge?_removeAll (p : Policy κ) (pred : Predicate κ) (asked : List κ) :
    (p.removeAll pred asked).2.knowledge? = p.knowledge? := by
  cases p <;> rfl

@[simp] theorem knowledge?_evict (p : Policy κ) (accesses : EntryId → Nat) (maxCount maxSize : Nat) :
    (p.evict accesses maxCount maxSize).2.knowledge? = p.knowledge? := by
  cases p <;> rfl

@[simp] theorem knowledge?_trim (p : Policy κ) (accesses : EntryId → Nat) (target : Nat) :
    (p.trim accesses target).2.knowledge? = p.knowledge? := by
  cases p <;> rfl

@[simp] theorem knowledge?_emptied (p : Policy κ) : p.emptied.knowledge? = p.knowledge? := by
  cases p <;> rfl

@[simp] theorem knowledge?_enqueue (p : Policy κ) (id : EntryId) (e : Entry κ) :
    (p.enqueue id e).knowledge? = p.knowledge? := by
  cases p with
  | lru queue => rfl
  | adaptive a =>
    show some (a.enqueue id e).knowledge = some a.knowledge
    unfold Adaptive.enqueue
    split <;> rfl

@[simp] theorem knowledge?_probe (p : Policy κ) (table : EntryTable κ) (k : κ) :
    (p.probe table k).1.knowledge? = p.knowledge? := by
  rcases p.probe_fst_cases table k with heq | ⟨id, e, _, heq⟩
  · rw [heq]
    exact p.knowledge?_remove k
  · rw [heq, knowledge?_enqueue, knowledge?_remove]

/-- What is learned from a request in vain does not depend on the exclusive entries. -/
theorem knowledge?_onMiss_remove (p : Policy κ) (k k' : κ) :
    ((p.remove k').2.onMiss k).knowledge? = (p.onMiss k).knowledge? := by
  cases p with
  | lru queue => rfl
  | adaptive a =>
    show some ((a.remove k').2.onMiss k).knowledge = some (a.onMiss k).knowledge
    rw [Adaptive.knowledge_onMiss, Adaptive.knowledge_onMiss]
    rfl

end Policy

namespace Cache

/-- The key of a request in vain. -/
def missed (c : Cache κ) : Operation κ → Option κ
  | .get s k =>
    match (c.get s k).1 with
    | none => some k
    | some _ => none
  | _ => none

/-- An operation teaches the policy what a request in vain does, and nothing otherwise. -/
theorem knowledge?_apply (c : Cache κ) (op : Operation κ) : (c.apply op).cache.policy.knowledge? =
    match c.missed op with
    | none => c.policy.knowledge?
    | some k => (c.policy.onMiss k).knowledge? := by
  -- no eviction teaches anything
  have hevict : (c.apply op).cache.policy.knowledge? = (c.policyAfter op).knowledge? := by
    rw [policy_apply]
    split
    · rw [← policy_beforeEviction]
      exact Policy.knowledge?_evict _ _ _ _
    · rfl
  rw [hevict]
  cases op with
  | store s k value size observer =>
    unfold policyAfter missed
    dsimp only
    split
    · rfl
    · exact c.policy.knowledge?_remove k
  | get s k =>
    unfold policyAfter missed
    dsimp only
    -- a key that is not in the map is missed, wherever else it is
    rw [get_fst]
    cases c.cached.get? k with
    | none => exact c.policy.knowledge?_onMiss_remove k k
    | some id => exact c.policy.knowledge?_remove k
  | release s id =>
    unfold policyAfter missed
    dsimp only
    split
    · rfl
    · split
      · exact Policy.knowledge?_enqueue _ _ _
      · rfl
  | _ => simp [policyAfter, missed]

theorem Rests.knowledge?_eq {c c' : Cache κ} (h : c.Rests c') :
    c'.policy.knowledge? = c.policy.knowledge? := by
  rcases h.contents with ⟨_, hpolicy⟩ | ⟨_, hpolicy⟩
  · rw [hpolicy]
  · rw [hpolicy, Policy.knowledge?_emptied]

/-- A cache with an adaptive policy keeps it, with the settings and the bounds of the fraction. -/
theorem Chronicle.sound {t : Tuning} {c c' : Cache κ} {l : List (Asked κ)} (h : c.Chronicle l c')
    (hstart : c.policy = .newAdaptive t) : ∃ a, c'.policy = .adaptive a ∧ a.knowledge.Sound t := by
  -- as long as there is knowledge, the policy is adaptive
  have hsome : ∃ kn, c'.policy.knowledge? = some kn ∧ kn.Sound t := by
    induction h with
    | start => exact ⟨.initial t, hstart ▸ rfl, Knowledge.sound_initial t⟩
    | rest _ rests ih => exact rests.knowledge?_eq ▸ ih
    | @ask _ c' _ op ih =>
      obtain ⟨kn, hknown, hsound⟩ := ih
      rw [knowledge?_apply]
      split
      · exact ⟨kn, hknown, hsound⟩
      · rename_i k _
        obtain ⟨a, hpolicy, rfl⟩ := Policy.exists_adaptive hknown
        rw [hpolicy]
        exact ⟨_, rfl, a.knowledge_onMiss k ▸ hsound.afterMiss _ _⟩
  obtain ⟨kn, hknown, hsound⟩ := hsome
  obtain ⟨a, hpolicy, rfl⟩ := Policy.exists_adaptive hknown
  exact ⟨a, hpolicy, hsound⟩

end Cache

/-- A policy that learns nothing goes on like that. -/
theorem Asked.learns_nothing_after {x : Asked κ} (hlearns : x.cache.policy.knowledge? = none) :
    x.after.policy.knowledge? = none := by
  have hknown := x.cache.knowledge?_apply x.op
  split at hknown
  · exact hknown.trans hlearns
  · rename_i k _
    obtain ⟨queue, hqueue⟩ := Policy.exists_queue hlearns
    exact hknown.trans (by rw [hqueue]; rfl)

end RefCache
