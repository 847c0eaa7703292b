import RefCache.Proofs.LimitsHold
import RefCache.Proofs.Session.Asks
import RefCache.Proofs.Session.Returning

/-!
# What is taken out can be put back, in every session

As long as the same limits are offered, every cache that a session gets to keeps to them (`Cache.KeepsTo`). So at
any moment, whatever nobody holds can be taken out and put back. Between steps, this is what a user of the session
sees of it (`Session.GivesBack`): a handle to the value, which leads to a new reference when it is given back.
-/

namespace RefCache

universe u

variable {κ : Type u} [Key κ]

namespace Session

/-- The session that asks for the value under a key to be taken out, and holds it as the handle `name` then. -/
def reused (s : Session κ) (k : κ) (name : String) : Session κ :=
  (s.perform (.reuse k (some name))).1

/-- What comes of taking the value under a key out, to be held as the handle `name`, and of caching it again. -/
structure GivesBack (s : Session κ) (k : κ) (name : String) : Prop where
  /-- There is a value to be taken out if it is cached and nobody holds it. -/
  takenOut_iff : (∃ seen, (s.perform (.reuse k (some name))).2 = .takenOut (some seen)) ↔
    ∃ id e, s.cache.Lends k id e
  /-- The handle leads to it then, and it has not been released, whatever observers have asked for. -/
  there : ∀ id e, s.cache.Lends k id e → (s.reused k name).handles[name]? = some e.value ∧
    ∃ value, (s.reused k name).values.get? e.value = some value ∧ (s.reused k name).releases e.value = 0
  /-- Unless the observer has asked for something before, it can be given back, and is not released with that. -/
  given : ∀ id e, s.cache.Lends k id e → s.Unanswered k e → ∀ respond, Responds respond → ∀ observer, ∃ c,
    ((s.reused k name).give respond k name observer).1 = some c ∧
      ((s.reused k name).give respond k name observer).2.Keeps c e.value
  /-- It can be cached while its handle is kept as well. -/
  stored : ∀ id e, s.cache.Lends k id e → s.Unanswered k e → ∀ observer into, ∃ view,
    ((s.reused k name).perform (.store k name observer into)).2 = .handedOut (some view)

variable {s : Session κ} {k : κ} {name : String} {id : EntryId} {e : Entry κ} {setup : Setup κ}

/-! ## One session -/

theorem getElem?_placeHandle (s : Session κ) (v : ValueId) (name : String) :
    (s.placeHandle v (some name)).handles[name]? = some v := by
  unfold placeHandle
  dsimp only
  split
  · simp
  · rw [(subsides_dropHandle _ _).handles_eq]
    simp

section

variable (h : s.AtRest) (hpresent : s.present = true)

include h

theorem AtRest.settles_reused (k : κ) (name : String) : s.Settles (s.reused k name) s.inFlight [] [] := by
  have hconsistent : s.Consistent s.inFlight [] [] := h.inFlight_eq.symm ▸ h.consistent
  exact (hconsistent.perform (r := .reuse k (some name)) trivial).1

include hpresent

/-- A request that takes a value out of the cache. -/
theorem AtRest.perform_reuse (hlends : s.cache.Lends k id e) (name : String) :
    ∃ respond, ∃ seen, s.perform (.reuse k (some name))
      = ((s.takenOut respond k e.value).placeHandle e.value (some name), .takenOut (some seen)) := by
  obtain ⟨respond, hrespond, hperform⟩ := s.exists_performWith
  have htaken := (Consistent.settles_takenOut (h.inFlight_eq.symm ▸ h.consistent) hrespond.sound hlends).own
  obtain ⟨value, hvalue, _⟩ := htaken.balanced.unreleased_of_pos (v := e.value)
    (by rw [List.count_cons_self]; omega)
  refine ⟨respond, (value.tag, value.handles), ?_⟩
  rw [hperform, performWith, withCache, if_pos hpresent,
    reuse_of_lends h.consistent.owned hlends respond (some name), hvalue]
  rfl

theorem AtRest.takenOut_iff : (∃ seen, (s.perform (.reuse k (some name))).2 = .takenOut (some seen)) ↔
    ∃ id e, s.cache.Lends k id e := by
  constructor
  · rintro ⟨seen, hseen⟩
    by_cases hlends : ∃ id e, s.cache.Lends k id e
    · exact hlends
    · obtain ⟨respond, _, hperform⟩ := s.exists_performWith
      rw [hperform, performWith, withCache, if_pos hpresent, reuse_of_not_lends h.consistent.owned
        (fun id e he => hlends ⟨id, e, he⟩)] at hseen
      cases hseen
  · rintro ⟨id, e, hlends⟩
    obtain ⟨_, seen, hperform⟩ := h.perform_reuse hpresent hlends name
    exact ⟨seen, by rw [hperform]⟩

variable (hlends : s.cache.Lends k id e)

include hlends

theorem AtRest.handle_reused (name : String) : (s.reused k name).handles[name]? = some e.value := by
  obtain ⟨respond, _, hperform⟩ := h.perform_reuse hpresent hlends name
  rw [reused, hperform]
  exact getElem?_placeHandle _ _ _

/-- What has a handle has not been released. -/
theorem AtRest.unreleased_reused (name : String) :
    ∃ value, (s.reused k name).values.get? e.value = some value ∧ (s.reused k name).releases e.value = 0 := by
  have hpos := namesOf_pos (h.handle_reused hpresent hlends name)
  exact (h.settles_reused k name).own.balanced.unreleased_of_pos (by omega)

theorem AtRest.wouldStore_reused (hignored : s.Unanswered k e) (hkeeps : s.cache.KeepsTo s.offered) (name : String)
    (observer : Option String) : (s.reused k name).WouldStore k e.value observer := by
  have hconsistent : s.Consistent s.inFlight [] [] := h.inFlight_eq.symm ▸ h.consistent
  obtain ⟨respond, _, hperform⟩ := h.perform_reuse hpresent hlends name
  obtain ⟨value, hvalue, _⟩ := h.unreleased_reused hpresent hlends name
  refine hconsistent.wouldStore_back respond hlends hignored hkeeps (some name) observer ?_ ⟨value, hvalue⟩
  rw [reused, hperform]

/-- A value that was taken out is cached while its handle is kept. -/
theorem AtRest.stored_reused (hignored : s.Unanswered k e) (hkeeps : s.cache.KeepsTo s.offered) (name : String)
    (observer into : Option String) :
    ∃ view, ((s.reused k name).perform (.store k name observer into)).2 = .handedOut (some view) := by
  obtain ⟨respond, hrespond, hperform⟩ := (s.reused k name).exists_performWith
  have hsettled := h.settles_reused k name
  have hhandle := h.handle_reused hpresent hlends name
  have hpos := namesOf_pos hhandle
  obtain ⟨hclient, hkept⟩ := hsettled.own.keeps_stored hrespond.unfolding (v := e.value) (by omega)
    (h.wouldStore_reused hpresent hlends hignored hkeeps name observer)
  obtain ⟨view, hview⟩ := hkept.exists_view
  refine ⟨view, ?_⟩
  rw [hperform, performWith, withCache, if_pos (hsettled.leads.present_eq.trans hpresent), Session.store, hhandle]
  dsimp only
  rw [hclient, placeStored, hview]

end

theorem AtRest.givesBack (h : s.AtRest) (hpresent : s.present = true) (hkeeps : s.cache.KeepsTo s.offered) (k : κ)
    (name : String) : s.GivesBack k name where
  takenOut_iff := h.takenOut_iff hpresent
  there := fun _ _ hlends => ⟨h.handle_reused hpresent hlends name, h.unreleased_reused hpresent hlends name⟩
  given := fun _ _ hlends hignored _ hrespond observer =>
    ⟨_, (h.settles_reused k name).own.keeps_given hrespond.unfolding (h.handle_reused hpresent hlends name)
      (h.wouldStore_reused hpresent hlends hignored hkeeps name observer)⟩
  stored := fun _ _ hlends hignored observer into =>
    h.stored_reused hpresent hlends hignored hkeeps name observer into

/-! ## Every session -/

theorem keepsTo_start (hsetup : setup.KeyDetermined) : (start setup).cache.KeepsTo setup.limits where
  owned := (atRest_start hsetup).consistent.owned
  shares := sharesFit_policyOf setup
  within := Cache.withinBudget_of_items_eq_nil (items_policyOf setup)
  capped := ⟨rfl, Nat.zero_le _, Nat.zero_le _⟩
  entry_le := fun _ hx => nomatch hx

/-- In every session that is offered the same limits all along, at any moment, exactly what is cached and held by
nobody can be taken out, and it can be put back. -/
theorem taken_out_fits_back (setup : Setup κ) (steps : List (Step κ)) (hsetup : setup.KeyDetermined)
    (hsteps : ∀ step ∈ steps, step.KeyDetermined)
    (hoffers : ∀ step ∈ steps, ∀ limits, step.offers? = some limits → limits = setup.limits) :
    (∃ log, (start setup).Unfolds [] log ((start setup).runAll steps) ∧
      askedOf log = ((start setup).runAll steps).operations.reverse ∧
      Along (fun _ c => (∀ k, c.TakesOut k) ∧ c.PutsAllBack setup.limits) log ((start setup).runAll steps)) ∧
      (((start setup).runAll steps).present = true →
        ∀ k name, ((start setup).runAll steps).GivesBack k name) := by
  have hadvances := (atRest_start hsetup).runAll steps hsteps hoffers rfl
  obtain ⟨log, hlog, hasked, halong⟩ := exists_along
    (Q := fun l c => c.Owned ∧ ((∀ x ∈ l, x.op.OfferedUnder (· = setup.limits)) → c.KeepsTo setup.limits))
    (fun _ _ _ hforgets h => ⟨hforgets.owned h.1, fun hl => (h.2 hl).of_forgets hforgets⟩)
    (fun l x hready h => ⟨hready.owned_after, fun hl =>
      (h.2 fun y hy => hl y (List.mem_append_left _ hy)).ask hready
        (hl x (List.mem_append_right _ List.mem_cons_self))⟩)
    setup steps hsetup hsteps ⟨(atRest_start hsetup).consistent.owned, fun _ => keepsTo_start hsetup⟩
  -- no operation has been offered other limits
  have hoffered : ∀ x ∈ asksOf log, x.op.OfferedUnder (· = setup.limits) := by
    intro x hx
    have hmem := op_mem_askedOf hx
    rw [hasked, List.mem_reverse] at hmem
    exact (hadvances.operations _ hmem).resolve_left (fun h => nomatch h)
  have hkeeps : Along (fun _ c => c.KeepsTo setup.limits) log ((start setup).runAll steps) :=
    halong.imp_of_mem fun l c hl h => h.2 fun x hx => hoffered x (hl x hx)
  refine ⟨⟨log, hlog.unfolds, hasked, hkeeps.imp fun _ _ h => ⟨h.owned.takesOut, h.putsAllBack⟩⟩,
    fun hpresent k name => hadvances.atRest.givesBack hpresent ?_ k name⟩
  rw [hadvances.offered]
  exact hkeeps.at_end (.inl hpresent)

/-- Room for fifteen bytes. -/
def roomForFifteen : Setup Nat where
  limits := { maxSize := 15 }

/-- Two values take all the room, and one of them is held. -/
def spareAndHeld : List (Step Nat) :=
  [.request (.put 1 { tag := "a", size := 10 } none none),
    .request (.put 2 { tag := "b", size := 5 } none (some "r"))]

/-- The other one is taken out. It goes to the end when it is put back, and nothing is evicted for it, or
released. -/
theorem taken_out_fits_back_spareAndHeld :
    ((∃ log, (start roomForFifteen).Unfolds [] log ((start roomForFifteen).runAll spareAndHeld) ∧
      askedOf log = ((start roomForFifteen).runAll spareAndHeld).operations.reverse ∧
      Along (fun _ c => (∀ k, c.TakesOut k) ∧ c.PutsAllBack roomForFifteen.limits) log
        ((start roomForFifteen).runAll spareAndHeld)) ∧
      (((start roomForFifteen).runAll spareAndHeld).present = true →
        ∀ k name, ((start roomForFifteen).runAll spareAndHeld).GivesBack k name)) ∧
      ((start roomForFifteen).runAll spareAndHeld).present = true ∧
      ((start roomForFifteen).runAll spareAndHeld).cache.cached.keys = [1, 2] ∧
      ((start roomForFifteen).runAll
        (spareAndHeld ++ [.request (.reuse 1 (some "h"))])).cache.cached.keys = [2] ∧
      ((start roomForFifteen).runAll (spareAndHeld ++ [.request (.reuse 1 (some "h")),
        .request (.store 1 "h" none none)])).cache.cached.keys = [2, 1] ∧
      ((start roomForFifteen).runAll (spareAndHeld ++ [.request (.reuse 1 (some "h")),
        .request (.store 1 "h" none none)])).releases 0 = 0 := by
  refine ⟨taken_out_fits_back roomForFifteen spareAndHeld (fun _ hr => nomatch hr) (fun step hstep => ?_)
    fun step hstep limits hoffers => ?_, by decide +kernel, by decide +kernel, by decide +kernel,
    by decide +kernel, by decide +kernel⟩
  · simp only [spareAndHeld, List.mem_cons, List.not_mem_nil, or_false] at hstep
    rcases hstep with rfl | rfl <;> trivial
  · simp only [spareAndHeld, List.mem_cons, List.not_mem_nil, or_false] at hstep
    rcases hstep with rfl | rfl <;> exact nomatch hoffers

end Session

end RefCache
