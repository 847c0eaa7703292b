import RefCache.Proofs.Chronicle.Learning
import RefCache.Proofs.Session.Chronicle

/-!
# The fraction follows the ghost hits

Under every tuning, legal or not, and whatever is asked for by whomever, the fraction of an adaptive policy
is as far from where it was at first as the steps taken say, and stays within its bounds. It moves when a
request finds nothing under a key that the ghosts know, by a full step or not at all
(`Adaptive.FractionFollows`).
-/

namespace RefCache

universe u

variable {κ : Type u} [Key κ]

namespace Asked

/-- A request in vain for a key that the LFU pool remembers. -/
def hitsLfuGhost (x : Asked κ) : Bool :=
  match x.cache.missed x.op, x.cache.policy with
  | some k, .adaptive a => a.lfu.ghosts.contains k
  | _, _ => false

/-- A request in vain for a key that the MFU pool remembers, and the LFU pool does not. -/
def hitsMfuGhost (x : Asked κ) : Bool :=
  match x.cache.missed x.op, x.cache.policy with
  | some k, .adaptive a => !a.lfu.ghosts.contains k && a.mfu.ghosts.contains k
  | _, _ => false

end Asked

namespace Adaptive

/-- How an operation that is asked for in the state `b` moves the fraction to that of `a`: only if it is a
request in vain, for the key `missed`. -/
structure FractionMoves (rate : Int) (missed : Option κ) (b a : Adaptive κ) : Prop where
  unmoved : missed = none → a.fraction = b.fraction
  grows : ∀ k, missed = some k → k ∈ b.lfu.ghosts.keys →
    a.fraction = if b.fraction + rate ≤ maxFraction then b.fraction + rate else b.fraction
  shrinks : ∀ k, missed = some k → k ∉ b.lfu.ghosts.keys → k ∈ b.mfu.ghosts.keys →
    a.fraction = if minFraction ≤ b.fraction - rate then b.fraction - rate else b.fraction
  ignored : ∀ k, missed = some k → k ∉ b.lfu.ghosts.keys → k ∉ b.mfu.ghosts.keys →
    a.fraction = b.fraction

/-- How the fraction follows from the operations so far. -/
structure FractionFollows (t : Tuning) (l : List (Asked κ)) (a : Adaptive κ) : Prop where
  fraction_eq : a.fraction = t.validated.fraction
    + t.validated.rate * ((a.counters.fractionIncreases : Int) - a.counters.fractionDecreases)
  min_le : minFraction ≤ a.fraction
  le_max : a.fraction ≤ maxFraction
  /-- Ghost hits are counted whether or not they move the fraction. -/
  lfuGhostHits_eq : a.counters.lfuGhostHits = l.countP Asked.hitsLfuGhost
  mfuGhostHits_eq : a.counters.mfuGhostHits = l.countP Asked.hitsMfuGhost
  at_first : l = [] → a.fraction = t.validated.fraction
  /-- After an operation and until the next one, the fraction is where the operation has moved it. -/
  last_move : ∀ before x, l = before ++ [x] →
    ∃ b, x.cache.policy = .adaptive b ∧
      FractionMoves t.validated.rate (x.cache.missed x.op) b a

variable {t : Tuning} {l : List (Asked κ)} {a a' b : Adaptive κ} {c : Cache κ} {op : Operation κ}

theorem FractionMoves.congr {rate : Int} {missed : Option κ} (h : FractionMoves rate missed b a)
    (hfraction : a'.fraction = a.fraction) : FractionMoves rate missed b a' where
  unmoved := fun hmissed => hfraction.trans (h.unmoved hmissed)
  grows := fun k hmissed hlfu => hfraction.trans (h.grows k hmissed hlfu)
  shrinks := fun k hmissed hlfu hmfu => hfraction.trans (h.shrinks k hmissed hlfu hmfu)
  ignored := fun k hmissed hlfu hmfu => hfraction.trans (h.ignored k hmissed hlfu hmfu)

/-- What a policy knows decides how its fraction follows. -/
theorem FractionFollows.congr (h : a.FractionFollows t l) (hknown : a'.knowledge = a.knowledge) :
    a'.FractionFollows t l := by
  have hfraction : a'.fraction = a.fraction := congrArg Knowledge.fraction hknown
  have hincreases : a'.counters.fractionIncreases = a.counters.fractionIncreases :=
    congrArg Knowledge.increases hknown
  have hdecreases : a'.counters.fractionDecreases = a.counters.fractionDecreases :=
    congrArg Knowledge.decreases hknown
  -- all of this is part of what is known
  constructor
  · rw [hfraction, hincreases, hdecreases]
    exact h.fraction_eq
  · exact hfraction ▸ h.min_le
  · exact hfraction ▸ h.le_max
  · exact (congrArg Knowledge.lfuGhostHits hknown).trans h.lfuGhostHits_eq
  · exact (congrArg Knowledge.mfuGhostHits hknown).trans h.mfuGhostHits_eq
  · exact fun hnil => hfraction.trans (h.at_first hnil)
  · intro before x hx
    obtain ⟨b, hb, hmoves⟩ := h.last_move before x hx
    exact ⟨b, hb, hmoves.congr hfraction⟩

/-- A policy that knows no more than at the beginning. -/
theorem fractionFollows_initial (hknown : a.knowledge = .initial t) : a.FractionFollows t [] := by
  have hsound : a.knowledge.Sound t := hknown ▸ Knowledge.sound_initial t
  exact
    { fraction_eq := hsound.fraction_eq
      min_le := hsound.min_le
      le_max := hsound.le_max
      lfuGhostHits_eq := congrArg Knowledge.lfuGhostHits hknown
      mfuGhostHits_eq := congrArg Knowledge.mfuGhostHits hknown
      at_first := fun _ => congrArg Knowledge.fraction hknown
      last_move := fun _ _ hx => by simp at hx }

/-- What an operation teaches a policy, as a case of what is learned from a request in vain. -/
theorem knowledge_apply (hpolicy : c.policy = .adaptive b)
    (hafter : (c.apply op).cache.policy = .adaptive a) : a.knowledge = match c.missed op with
      | none => b.knowledge
      | some k => b.knowledge.afterMiss (b.lfu.ghosts.contains k) (b.mfu.ghosts.contains k) := by
  have hlearned := c.knowledge?_apply op
  rw [hafter, hpolicy] at hlearned
  cases hmissed : c.missed op with
  | none =>
    rw [hmissed] at hlearned
    exact Option.some.inj hlearned
  | some k =>
    rw [hmissed] at hlearned
    simp only [History.contains_eq_isSome, ← knowledge_onMiss]
    exact Option.some.inj hlearned

/-- An operation moves the fraction as its key, missed or not, decides. -/
theorem fractionMoves_of_knowledge {missed : Option κ} (hknown : a.knowledge = match missed with
      | none => b.knowledge
      | some k => b.knowledge.afterMiss (b.lfu.ghosts.contains k) (b.mfu.ghosts.contains k)) :
    FractionMoves b.rate missed b a := by
  have hfraction : a.fraction = a.knowledge.fraction := rfl
  -- one case for each way in which a miss can meet the two ghost lists
  constructor
  · rintro rfl
    rw [hfraction, hknown]
    rfl
  · rintro k rfl hlfu
    rw [← History.contains_iff_mem_keys] at hlfu
    rw [hfraction, hknown]
    dsimp only
    rw [hlfu]
    exact Knowledge.fraction_grown _
  · rintro k rfl hlfu hmfu
    rw [← History.contains_iff_mem_keys, Bool.not_eq_true] at hlfu
    rw [← History.contains_iff_mem_keys] at hmfu
    rw [hfraction, hknown]
    dsimp only
    rw [hlfu, hmfu]
    exact Knowledge.fraction_shrunk _
  · rintro k rfl hlfu hmfu
    rw [← History.contains_iff_mem_keys, Bool.not_eq_true] at hlfu hmfu
    rw [hfraction, hknown]
    dsimp only
    rw [hlfu, hmfu]
    rfl

/-- An operation adds to the ghost hits what it is. -/
theorem hits_of_knowledge (hpolicy : c.policy = .adaptive b)
    (hknown : a.knowledge = match c.missed op with
      | none => b.knowledge
      | some k => b.knowledge.afterMiss (b.lfu.ghosts.contains k) (b.mfu.ghosts.contains k)) :
    a.counters.lfuGhostHits
        = b.counters.lfuGhostHits + (if Asked.hitsLfuGhost ⟨c, op⟩ then 1 else 0) ∧
      a.counters.mfuGhostHits
        = b.counters.mfuGhostHits + (if Asked.hitsMfuGhost ⟨c, op⟩ then 1 else 0) := by
  have hlfu : a.counters.lfuGhostHits = a.knowledge.lfuGhostHits := rfl
  have hmfu : a.counters.mfuGhostHits = a.knowledge.mfuGhostHits := rfl
  rw [hlfu, hmfu, hknown, Asked.hitsLfuGhost, Asked.hitsMfuGhost]
  dsimp only
  rw [hpolicy]
  cases c.missed op with
  | none => exact ⟨rfl, rfl⟩
  | some k => exact b.knowledge.hits_afterMiss _ _

end Adaptive

namespace Cache.Chronicle

/-- The fraction follows the ghost hits in everything that becomes of a cache. -/
theorem fractionFollows {t : Tuning} {c c' : Cache κ} {l : List (Asked κ)} (h : c.Chronicle l c')
    (hstart : c.policy = .newAdaptive t) :
    ∃ a, c'.policy = .adaptive a ∧ a.FractionFollows t l := by
  induction h with
  | start => exact ⟨_, hstart, Adaptive.fractionFollows_initial rfl⟩
  | @rest _ c' c'' before rests ih =>
    -- at rest nothing is learned
    obtain ⟨a, ha, hfollows⟩ := ih
    obtain ⟨a', ha', _⟩ := (before.rest rests).sound hstart
    have hknown := rests.knowledge?_eq
    rw [ha, ha'] at hknown
    exact ⟨a', ha', hfollows.congr (Option.some.inj hknown)⟩
  | @ask _ c' before op ih =>
    obtain ⟨b, hb, hfollows⟩ := ih
    -- the settings of the policy that is asked are those of the tuning
    obtain ⟨_, hb', hsound⟩ := before.sound hstart
    obtain rfl := Policy.adaptive.inj (hb.symm.trans hb')
    obtain ⟨a, ha, hsound'⟩ := (before.ask op).sound hstart
    have hknown := Adaptive.knowledge_apply hb ha
    have hmoves := Adaptive.fractionMoves_of_knowledge hknown
    obtain ⟨hlfu, hmfu⟩ := Adaptive.hits_of_knowledge hb hknown
    refine ⟨a, ha, hsound'.fraction_eq, hsound'.min_le, hsound'.le_max, ?_, ?_, fun hnil => ?_, ?_⟩
    · rw [hlfu, hfollows.lfuGhostHits_eq, List.countP_append, List.countP_singleton]
    · rw [hmfu, hfollows.mfuGhostHits_eq, List.countP_append, List.countP_singleton]
    · simp at hnil
    · -- the latest operation is this one
      intro before' x hx
      obtain ⟨_, hx⟩ := List.append_inj' hx rfl
      obtain rfl := (List.cons.inj hx).1
      exact ⟨b, hb, hsound.rate_eq ▸ hmoves⟩

end Cache.Chronicle

namespace Session

theorem policy_start {setup : Setup κ} {tuning : Tuning} (htuned : setup.tuning = some tuning) :
    (start setup).cache.policy = .newAdaptive tuning := by
  show policyOf setup = _
  rw [policyOf, htuned]

/-- Every session has a chronicle, and in every chronicle of it the fraction has followed the ghost hits all
along. -/
theorem fraction_follows (setup : Setup κ) {tuning : Tuning} (htuned : setup.tuning = some tuning)
    (steps : List (Step κ)) :
    (∃ l, ((start setup).runAll steps).ChronicledFrom (start setup).cache l) ∧
      ∀ l, ((start setup).runAll steps).ChronicledFrom (start setup).cache l →
        Throughout (fun l c => ∃ a, c.policy = .adaptive a ∧ a.FractionFollows tuning l) l
          ((start setup).runAll steps).cache :=
  ⟨exists_chronicle setup steps, fun _ hl =>
    hl.chronicle.throughout fun _ _ h => h.fractionFollows (policy_start htuned)⟩

/-- A policy that learns by large steps and remembers one key of each pool. -/
def hasty : Tuning where
  rate := 300
  ghostCapacity := 1

/-- A cache in which nothing exclusive can stay. -/
def fleeting : Setup Nat where
  tuning := some hasty
  limits := { maxQueueEntries := 0 }

/-- The first value leaves the LFU pool and is missed twice, which is one step more than the bounds allow.
Then it counts as frequently used, so it leaves the MFU pool, and it is missed again when the LFU ghosts know
the second one only. -/
def missedFromEitherPool : List (Step Nat) :=
  [.request (.put 1 { tag := "a", size := 10 } none none),
    .request (.get 1 none),
    .request (.get 1 none),
    .request (.put 1 { tag := "b", size := 10 } none none),
    .request (.put 2 { tag := "c", size := 10 } none none),
    .request (.get 1 none)]

theorem fraction_follows_missedFromEitherPool :
    ((∃ l, ((start fleeting).runAll missedFromEitherPool).ChronicledFrom (start fleeting).cache l) ∧
      ∀ l, ((start fleeting).runAll missedFromEitherPool).ChronicledFrom (start fleeting).cache l →
        Throughout (fun l c => ∃ a, c.policy = .adaptive a ∧ a.FractionFollows hasty l) l
          ((start fleeting).runAll missedFromEitherPool).cache) ∧
      ((start fleeting).runAll missedFromEitherPool).cache.policy.knowledge? =
        some
          { fraction := 500
            rate := 300
            threshold := 1
            increases := 1
            decreases := 1
            lfuGhostHits := 2
            mfuGhostHits := 1 } :=
  ⟨fraction_follows fleeting rfl missedFromEitherPool, by decide +kernel⟩

end Session

end RefCache
