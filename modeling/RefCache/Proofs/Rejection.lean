import RefCache.Proofs.Budget.Room
import RefCache.Proofs.Chronicle.Departures
import RefCache.Proofs.Session.LettingGo

/-!
# Values that are turned down

Turning a value down leaves the cache alone, but for the count of rejections. An eviction comes after it as
it does after any other attempt to cache a value. So a rejection leaves the cache untouched exactly if that
eviction finds nothing to evict (`Session.Untouched`, `Session.untouched_iff_hasRoom`).

In a single queue there is nothing to evict then, whatever has happened before. Of two pools, one can have
been left with more than its share by a probe, until the next operation that evicts; as long as there was
no such probe, a rejection leaves the cache untouched as well.
-/

namespace RefCache

universe u

variable {κ : Type u} [Key κ]

/-- Every probe has been followed by an operation that brings the pools down to their shares. -/
def ProbesSettled (l : List (Asked κ)) : Prop :=
  ∀ before x after k, l = before ++ x :: after → x.op = .probe k → ∃ y ∈ after, y.op.keepsShares = true

namespace ProbesSettled

variable {l : List (Asked κ)} {x : Asked κ}

theorem not_probe (h : ProbesSettled (l ++ [x])) (k : κ) : x.op ≠ .probe k := by
  intro hop
  obtain ⟨y, hy, _⟩ := h l x [] k rfl hop
  exact nomatch hy

/-- An operation that settles nothing leaves nothing to be settled, if nothing is left after it. -/
theorem of_concat (h : ProbesSettled (l ++ [x])) (hkeeps : x.op.keepsShares = false) : ProbesSettled l := by
  intro before y after k hl hop
  obtain ⟨z, hz, hsettles⟩ := h before y (after ++ [x]) k (by simp [hl]) hop
  rcases List.mem_append.1 hz with hz | hz
  · exact ⟨z, hz, hsettles⟩
  · obtain rfl := List.mem_singleton.1 hz
    exact nomatch hkeeps.symm.trans hsettles

end ProbesSettled

/-! ## One rejection -/

namespace Cache

variable {c : Cache κ} {s : Surroundings} {k : κ} {value : ValueId} {size : Nat} {observer : Option String}

/-- A value that is turned down while the limits stay is counted, and then there is an eviction. -/
theorem beforeEviction_of_rejected (hdue : c.reloadDue s.now = false)
    (hrejected : (c.store s k value size observer).1 = none) :
    c.beforeEviction (.store s k value size observer) = c.start.reject size := by
  have hreload : c.start.reload s = c.start := Transition.reload_of_not_due hdue
  rw [store_fst_ite, hreload] at hrejected
  unfold beforeEviction
  dsimp only
  rw [hreload]
  split
  · rename_i hadmits
    simp [hadmits] at hrejected
  · rfl

end Cache

namespace Session

/-- The operation, a rejection of a value of this size, changes nothing but what is written down of it. -/
structure Untouched (m : Session κ) (op : Operation κ) (size : Nat) : Prop where
  /-- Entries and their order, ghosts, limits and all that the policy has learned are what they were. -/
  cache_eq : (m.cache.apply op).cache = { m.cache with counters := m.cache.counters.recordRejection }
  /-- However observers would react, nobody is told anything, and no value is released. -/
  finish_eq : ∀ respond : Responder κ, m.finish respond op (m.cache.apply op) = { m with
    cache := { m.cache with counters := m.cache.counters.recordRejection }
    operations := op :: m.operations
    calls := .evict m.cache.queueBudget.1 m.cache.queueBudget.2 [] :: m.calls
    messages := .rejected size :: m.messages }

/-- What there is to say about a value that is turned down after the operations `l`. -/
structure TurnsDown (setup : Setup κ) (l : List (Asked κ)) (m : Session κ) (op : Operation κ) (size : Nat) :
    Prop where
  untouched_iff : m.Untouched op size ↔ m.cache.HasRoom
  /-- Otherwise exclusive entries are evicted. -/
  evicted_iff : (⟨m.cache, op⟩ : Asked κ).evicted ≠ [] ↔ ¬ m.cache.HasRoom
  /-- In a single queue there is room. -/
  of_queue : setup.tuning = none → m.cache.HasRoom
  /-- In two pools there is room if there was no probe since they were brought down to their shares. -/
  of_settled : ProbesSettled l → m.cache.HasRoom

variable {m : Session κ} {w : Surroundings} {k : κ} {v : ValueId} {size : Nat} {observer : Option String}

theorem untouched_iff_hasRoom (hdue : m.cache.reloadDue w.now = false)
    (hrejected : (m.cache.store w k v size observer).1 = none) :
    m.Untouched (.store w k v size observer) size ↔ m.cache.HasRoom := by
  have happly : m.cache.apply (.store w k v size observer) = (m.cache.start.reject size).evict := by
    rw [Cache.apply_eq, Cache.beforeEviction_of_rejected hdue hrejected]
    rfl
  constructor
  · intro h
    -- an untouched cache has the policy it had, so the eviction has found nothing to do
    have hpolicy : (m.cache.start.reject size).evicted.2 = m.cache.policy := by
      rw [← Transition.policy_evict, ← happly, h.cache_eq]
    exact (Policy.evict_snd_eq_self_iff _ _ _ _).1 hpolicy
  · intro hroom
    have hevict : (m.cache.start.reject size).evict = (m.cache.start.reject size).called
        (.evict m.cache.queueBudget.1 m.cache.queueBudget.2 []) := Transition.evict_of_hasRoom hroom
    constructor
    · rw [happly, hevict]
      rfl
    · intro respond
      rw [happly, hevict]
      rfl

theorem evicted_of_rejected (hdue : m.cache.reloadDue w.now = false)
    (hrejected : (m.cache.store w k v size observer).1 = none) :
    (⟨m.cache, .store w k v size observer⟩ : Asked κ).evicted = [] ↔ m.cache.HasRoom := by
  have hevicted : (⟨m.cache, .store w k v size observer⟩ : Asked κ).evicted
      = (m.cache.start.reject size).evicted.1 := by
    rw [← Cache.beforeEviction_of_rejected hdue hrejected]
    rfl
  rw [hevicted]
  exact Policy.evict_fst_eq_nil_iff _ _ _ _

/-! ## Every session -/

/-- Where there is room after the operations `l`, by what the policy is and by what was asked for. -/
structure Roomy (setup : Setup κ) (l : List (Asked κ)) (c : Cache κ) : Prop where
  learns_nothing : setup.tuning = none → c.policy.knowledge? = none
  of_queue : setup.tuning = none → c.HasRoom
  of_settled : ProbesSettled l → c.HasRoom

variable {setup : Setup κ} {l : List (Asked κ)} {c c' : Cache κ} {x : Asked κ}

theorem Roomy.of_forgets (h : Roomy setup l c) (hforgets : c.Forgets c') : Roomy setup l c' where
  learns_nothing := fun hqueue => hforgets.policy_eq ▸ h.learns_nothing hqueue
  of_queue := fun hqueue => (h.of_queue hqueue).of_forgets hforgets
  of_settled := fun hsettled => (h.of_settled hsettled).of_forgets hforgets

theorem Roomy.ask (h : Roomy setup l x.cache) (hready : x.Ready) : Roomy setup (l ++ [x]) x.after where
  learns_nothing := fun hqueue => Asked.learns_nothing_after (h.learns_nothing hqueue)
  of_queue := fun hqueue => hready.hasRoom_of_learns_nothing (h.learns_nothing hqueue) (h.of_queue hqueue)
  of_settled := by
    intro hsettled
    cases hkeeps : x.op.keepsShares with
    | true => exact hready.hasRoom_of_keepsShares hkeeps
    | false =>
      have hroom := h.of_settled (hsettled.of_concat hkeeps)
      -- of the operations that do not keep the shares, a probe alone can fill a pool beyond its own
      cases hop : x.op with
      | probe k => exact absurd hop (hsettled.not_probe k)
      | reuse k => exact hready.hasRoom_reuse hop hroom
      | _ => simp [hop, Operation.keepsShares] at hkeeps

theorem roomy_start (setup : Setup κ) : Roomy setup [] (start setup).cache where
  learns_nothing := by
    intro hqueue
    show (policyOf setup).knowledge? = none
    rw [policyOf, hqueue]
    rfl
  of_queue := fun _ => Policy.hasRoom_of_items_eq_nil (items_policyOf setup) _ _
  of_settled := fun _ => Policy.hasRoom_of_items_eq_nil (items_policyOf setup) _ _

/-- In every session, a value that is turned down while no new limits are due leaves the cache untouched
exactly if every pool has room for its entries. A single queue always has it, and two pools have it unless
there was a probe since the last operation that has brought them down to their shares. -/
theorem rejection_untouched_iff (setup : Setup κ) (steps : List (Step κ)) (hsetup : setup.KeyDetermined)
    (hsteps : ∀ step ∈ steps, step.KeyDetermined) :
    ∃ log, (start setup).Unfolds [] log ((start setup).runAll steps) ∧
      askedOf log = ((start setup).runAll steps).operations.reverse ∧
      ∀ before (m : Session κ) w k v size observer after,
        log = before ++ ⟨m, .asked (.store w k v size observer)⟩ :: after →
        m.cache.reloadDue w.now = false → (m.cache.store w k v size observer).1 = none →
        TurnsDown setup (asksOf before) m (.store w k v size observer) size := by
  obtain ⟨log, hlog, hasked, halong⟩ := exists_along (Q := Roomy setup)
    (fun _ _ _ hforgets h => h.of_forgets hforgets) (fun _ _ hready h => h.ask hready)
    setup steps hsetup hsteps (roomy_start setup)
  refine ⟨log, hlog.unfolds, hasked, fun before m w k v size observer after hsplit hdue hrejected => ?_⟩
  have hroomy := halong.at_each before _ after hsplit
  exact
    { untouched_iff := untouched_iff_hasRoom hdue hrejected
      evicted_iff := not_congr (evicted_of_rejected hdue hrejected)
      of_queue := hroomy.of_queue
      of_settled := hroomy.of_settled }

/-- Room for ten bytes, nine of them for the pool of the less frequently used. -/
def nineForOne : Setup Nat where
  tuning := some { fraction := 900 }
  limits := { maxSize := 10 }

/-- A value comes into the one pool, a probe brings it into the other, where there is no room for it, and then
one that is too large is turned down. -/
def probedThenTurnedDown : List (Step Nat) :=
  [.request (.put 1 { tag := "a", size := 5 } none none),
    .request (.probe 1),
    .request (.put 1 { tag := "b", size := 11 } none none)]

/-- The rejection evicts the value that was there; without the probe, it stays. -/
theorem rejection_untouched_iff_probedThenTurnedDown :
    (∃ log, (start nineForOne).Unfolds [] log ((start nineForOne).runAll probedThenTurnedDown) ∧
      askedOf log = ((start nineForOne).runAll probedThenTurnedDown).operations.reverse ∧
      ∀ before (m : Session Nat) w k v size observer after,
        log = before ++ ⟨m, .asked (.store w k v size observer)⟩ :: after →
        m.cache.reloadDue w.now = false → (m.cache.store w k v size observer).1 = none →
        TurnsDown nineForOne (asksOf before) m (.store w k v size observer) size) ∧
      ((start nineForOne).runAll (probedThenTurnedDown.take 2)).cache.cached.keys = [1] ∧
      ((start nineForOne).runAll probedThenTurnedDown).cache.cached.keys = [] ∧
      ((start nineForOne).runAll probedThenTurnedDown).cache.counters.rejections = 1 ∧
      ((start nineForOne).runAll probedThenTurnedDown).released = [0, 1] ∧
      ((start nineForOne).runAll (probedThenTurnedDown.eraseIdx 1)).cache.cached.keys = [1] := by
  refine ⟨rejection_untouched_iff nineForOne probedThenTurnedDown (fun _ hr => nomatch hr)
    fun step hstep => ?_, by decide +kernel, by decide +kernel, by decide +kernel, by decide +kernel,
    by decide +kernel⟩
  simp only [probedThenTurnedDown, List.mem_cons, List.not_mem_nil, or_false] at hstep
  rcases hstep with rfl | rfl | rfl <;> trivial

end Session

end RefCache
