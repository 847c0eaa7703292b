import RefCache.Proofs.Budget.InUse
import RefCache.Proofs.Session.Asks

/-!
# Which values are taken in

A value is taken in if it fits in with the entries in use under other keys, by the limits that the call finds
in effect (`Cache.FitsBeside`). Exclusive entries do not count, under whatever key.

The room for bytes is a difference that is never negative. So a value of no size finds room even where the
limits have shrunk below what is in use already; for all other values the rule is exact
(`Cache.DecidesByUse`).
-/

namespace RefCache

universe u

variable {κ : Type u} [Key κ]

namespace Cache

/-- A value of this size keeps to the limits, alone and together with what is in use under other keys. -/
structure FitsBeside (c : Cache κ) (limits : Limits) (k : κ) (size : Nat) : Prop where
  entry_le : size ≤ limits.maxEntrySize
  count_le : (c.busy.filter (·.1 ≠ k)).length + 1 ≤ limits.maxEntries
  size_le : totalOf (fun x => x.2.size) (c.busy.filter (·.1 ≠ k)) + size ≤ limits.maxSize

/-- What decides whether a value is taken in. -/
structure DecidesByUse (c : Cache κ) (w : Surroundings) (k : κ) (value : ValueId) (size : Nat)
    (observer : Option String) : Prop where
  accepted_iff : (c.store w k value size observer).1.isSome = true ↔
    size ≤ (c.limitsAt w).maxEntrySize ∧
      (c.busy.filter (·.1 ≠ k)).length + 1 ≤ (c.limitsAt w).maxEntries ∧
      (size = 0 ∨
        totalOf (fun x => x.2.size) (c.busy.filter (·.1 ≠ k)) + size ≤ (c.limitsAt w).maxSize)
  /-- The value has to fit in, unless it has no size and the limit on bytes is exceeded without it. -/
  accepted_iff_fits : size ≠ 0 ∨
      totalOf (fun x => x.2.size) (c.busy.filter (·.1 ≠ k)) ≤ (c.limitsAt w).maxSize →
    ((c.store w k value size observer).1.isSome = true ↔ c.FitsBeside (c.limitsAt w) k size)
  /-- It makes no difference which exclusive entries there are: any of them can be taken out first. -/
  exclusive_irrelevant : ∀ keys : List κ,
    ((c.applyAll (keys.map .reuse)).store w k value size observer).1.isSome
      = (c.store w k value size observer).1.isSome

variable {c : Cache κ}

theorem OwnedExcept.decidesByUse (howned : c.Owned) (w : Surroundings) (k : κ) (value : ValueId) (size : Nat)
    (observer : Option String) : c.DecidesByUse w k value size observer := by
  have haccepted := isSome_store_iff howned w k value size observer
  constructor
  · rw [haccepted]
    omega
  · intro hexact
    rw [haccepted]
    constructor
    · exact fun h => ⟨h.1, by omega, by omega⟩
    · rintro ⟨hentry, hcount, hsize⟩
      exact ⟨hentry, by omega, by omega⟩
  · exact fun keys => (sameInUse_applyAll_reuse howned keys).isSome_store howned w k value size observer

end Cache

/-! ## Every session -/

namespace Session

/-- In every session, whatever limits it has been offered, what decides about a value at any moment are the
limits then and the entries in use. -/
theorem admission_by_use (setup : Setup κ) (steps : List (Step κ)) (hsetup : setup.KeyDetermined)
    (hsteps : ∀ step ∈ steps, step.KeyDetermined) :
    ∃ log, (start setup).Unfolds [] log ((start setup).runAll steps) ∧
      askedOf log = ((start setup).runAll steps).operations.reverse ∧
      Along (fun _ c => ∀ w k value size observer, c.DecidesByUse w k value size observer) log
        ((start setup).runAll steps) := by
  obtain ⟨log, hlog, hasked, halong⟩ := exists_along (Q := fun _ c => c.Owned)
    (fun _ _ _ hforgets howned => hforgets.owned howned) (fun _ _ hready _ => hready.owned_after)
    setup steps hsetup hsteps (atRest_start hsetup).consistent.owned
  exact ⟨log, hlog.unfolds, hasked, halong.imp fun _ _ howned => howned.decidesByUse⟩

/-- Room for ten bytes. -/
def roomForTen : Setup Nat where
  limits := { maxSize := 10 }

/-- A value of ten bytes is held. Then there is room for five bytes only, and a value of one byte and one of
no size are to come in. -/
def heldAboveLimits : List (Step Nat) :=
  [.request (.put 1 { tag := "a", size := 10 } none (some "r")),
    .offer { maxSize := 5 }, .advance (.ofSeconds 301),
    .request (.put 2 { tag := "b", size := 1 } none none),
    .request (.put 3 { tag := "c", size := 0 } none none)]

/-- The value of one byte is turned down, and the one of no size is taken in, although the entry in use
exceeds the limit on bytes already. -/
theorem admission_by_use_heldAboveLimits :
    (∃ log, (start roomForTen).Unfolds [] log ((start roomForTen).runAll heldAboveLimits) ∧
      askedOf log = ((start roomForTen).runAll heldAboveLimits).operations.reverse ∧
      Along (fun _ c => ∀ w k value size observer, c.DecidesByUse w k value size observer) log
        ((start roomForTen).runAll heldAboveLimits)) ∧
      ((start roomForTen).runAll heldAboveLimits).cache.limits.maxSize = 5 ∧
      ((start roomForTen).runAll heldAboveLimits).cache.inUseSize = 10 ∧
      ((start roomForTen).runAll heldAboveLimits).cache.cached.keys = [1, 3] := by
  refine ⟨admission_by_use roomForTen heldAboveLimits (fun _ hr => nomatch hr) fun step hstep => ?_,
    by decide +kernel, by decide +kernel, by decide +kernel⟩
  simp only [heldAboveLimits, List.mem_cons, List.not_mem_nil, or_false] at hstep
  rcases hstep with rfl | rfl | rfl | rfl | rfl <;> trivial

end Session

end RefCache
