import RefCache.Proofs.Budget.RemovingByKey
import RefCache.Proofs.LimitsHold
import RefCache.Proofs.NoticeBalance
import RefCache.Proofs.Session.LettingGo
import RefCache.Proofs.Session.Outsiders

/-!
# Removing by keys, in every session

Where every pool has room and no new limits are due, a removal by keys takes out exactly what is cached under the
keys (`Cache.RemovesByKey`). The exclusive entries among it are gone when nothing is under way any more
(`Session.PartsWith`). Those in use are outside from then on, and go when their last client lets go
(`Session.LeavesToClients`). Nobody notices either but through one notice to each observer of an exclusive entry,
whatever the observers ask for when they are told.
-/

namespace RefCache

universe u

variable {κ : Type u} [Key κ]

namespace Session

/-- An exclusive entry that is taken out after the incidents `before`, of all those of the log. -/
structure PartsWith (log before : List (Incident κ)) (s' : Session κ) (id : EntryId) (e : Entry κ) : Prop where
  /-- Its observer is told once more, that it is no longer exclusive. -/
  told : e.observer.isSome = true →
    flagsOf id (announcedOf log) = flagsOf id (reportedOf before) ++ [false]
  gone : s'.cache.entries.get? id = none
  value : s'.ReleasedUnlessHeld e.value

/-- An entry in use that is taken out after the incidents `before` by an operation of the session `m`, with the
incidents `after` still to come. -/
structure LeavesToClients (log before : List (Incident κ)) (m : Session κ) (op : Operation κ)
    (after : List (Incident κ)) (s' : Session κ) (id : EntryId) (e : Entry κ) : Prop where
  held : 0 < m.clientsOf id
  /-- Its observer is told nothing more. -/
  told : e.observer.isSome = true → flagsOf id (announcedOf log) = flagsOf id (reportedOf before)
  outside_then : (m.adopt op (m.cache.apply op)).Outside id e.value
  outside_after : ∀ i ∈ after, i.state.Outside id e.value
  outside_end : s'.Outside id e.value
  /-- It stays until its last client lets go. -/
  there_iff : (∃ e', s'.cache.entries.get? id = some e') ↔ 0 < s'.clientsOf id
  value : s'.ReleasedUnlessHeld e.value

/-- What becomes of the entries that are taken out by removals on the way to a session. -/
def PartsAlong (log : List (Incident κ)) (s' : Session κ) : Prop :=
  ∀ before m w p after, log = before ++ ⟨m, .asked (.removeAll w p)⟩ :: after →
    m.cache.reloadDue w.now = false → m.cache.HasRoom →
    ∀ x ∈ m.cache.cached.toList, p.answer [] x.1 = true → ∃ e, m.cache.entries.get? x.2.value = some e ∧
      (x.2.value ∈ m.cache.policy.ids → PartsWith log before s' x.2.value e) ∧
      (x.2.value ∉ m.cache.policy.ids →
        LeavesToClients log before m (.removeAll w p) after s' x.2.value e)

variable {s s' m : Session κ} {before after log : List (Incident κ)} {w : Surroundings} {p : Predicate κ}
  {held : List ClientId} {grip : List ValueId} {x : κ × Sized EntryId} {e : Entry κ}

/-! ## One removal -/

/-- One of the operations on the way of a session is a removal that takes out an entry. -/
structure Dismisses (s : Session κ) (before : List (Incident κ)) (m : Session κ) (w : Surroundings)
    (p : Predicate κ) (after : List (Incident κ)) (s' : Session κ) (x : κ × Sized EntryId) (e : Entry κ) :
    Prop where
  unfolds : s.Unfolds [] (before ++ ⟨m, .asked (.removeAll w p)⟩ :: after) s'
  kept : s.KeepsInFlight
  atRest : s'.AtRest
  removes : m.cache.RemovesByKey w p
  cached : x ∈ m.cache.cached.toList
  accepted : p.answer [] x.1 = true
  entry : m.cache.entries.get? x.2.value = some e

namespace Dismisses

variable (h : Dismisses s before m w p after s' x e)

include h

theorem prepared : ∃ held grip, m.Prepared (.removeAll w p) held grip :=
  (h.unfolds.proceeds.prepared (i := ⟨m, .asked (.removeAll w p)⟩) (by simp) rfl).2

theorem owned : m.cache.Owned := by
  obtain ⟨_, _, hprepared⟩ := h.prepared
  exact hprepared.owned

/-- The entry is marked as having left. -/
theorem entry_then : (m.cache.apply (.removeAll w p)).cache.entries.get? x.2.value = some e.markOrphan :=
  h.removes.get?_of_accepted h.owned h.cached h.accepted h.entry

theorem departed : (m.cache.apply (.removeAll w p)).cache.Departed x.2.value := by
  refine ⟨Register.lt_next_of_get? _ h.entry_then, fun e' he' => ?_⟩
  obtain rfl := Option.some.inj (h.entry_then.symm.trans he')
  rfl

/-- What follows the removal. -/
theorem later : (m.adopt (.removeAll w p) (m.cache.apply (.removeAll w p))).Proceeds after s' :=
  h.unfolds.proceeds.split.2.operated

theorem departed_end : s'.cache.Departed x.2.value :=
  h.departed.evolves h.later.outlives.evolves

theorem told (hobserver : e.observer.isSome = true) :
    flagsOf x.2.value (announcedOf (before ++ ⟨m, .asked (.removeAll w p)⟩ :: after))
      = flagsOf x.2.value (reportedOf before) ++ if x.2.value ∈ m.cache.policy.ids then [false] else [] := by
  rw [h.unfolds.told_of_departed h.kept h.entry hobserver h.departed]
  exact congrArg _ (h.removes.flagsOf_notices h.owned h.cached h.accepted)

/-- Nobody becomes a client of an exclusive entry that has been taken out. -/
theorem clientsOf_of_exclusive (hid : x.2.value ∈ m.cache.policy.ids) : s'.clientsOf x.2.value = 0 := by
  obtain ⟨_, _, hprepared⟩ := h.prepared
  obtain ⟨e', he', _, hunheld⟩ := (h.owned.mem_ids_iff _).1 hid
  have hclients : (m.cache.apply (.removeAll w p)).cache.entries.clients x.2.value = 0 := by
    rw [show (m.cache.apply (.removeAll w p)).cache.entries.clients x.2.value = _ from h.removes.rid.clients_eq _,
      EntryTable.clients_of_get? he', hunheld]
  -- an entry without clients that has left is found by nobody
  rw [← h.atRest.consistent.balanced.clients_eq]
  exact h.later.follows.trace.clients_of_departed hprepared.orderly.owned h.departed hclients

theorem partsWith (hid : x.2.value ∈ m.cache.policy.ids) :
    PartsWith (before ++ ⟨m, .asked (.removeAll w p)⟩ :: after) before s' x.2.value e where
  told := fun hobserver => by rw [h.told hobserver, if_pos hid]
  gone := by
    cases hgone : s'.cache.entries.get? x.2.value with
    | none => rfl
    | some e' =>
      have hpos := (h.atRest.exists_iff_of_departed h.departed_end).1 ⟨e', hgone⟩
      rw [h.clientsOf_of_exclusive hid] at hpos
      exact absurd hpos (Nat.lt_irrefl 0)
  value := h.atRest.releasedUnlessHeld _

theorem leavesToClients (hid : x.2.value ∉ m.cache.policy.ids) :
    LeavesToClients (before ++ ⟨m, .asked (.removeAll w p)⟩ :: after) before m (.removeAll w p) after s'
      x.2.value e := by
  obtain ⟨_, _, hprepared⟩ := h.prepared
  have hthen := h.entry_then
  refine ⟨?_, fun hobserver => ?_, ?_, fun i hi => ?_, ?_,
    h.atRest.exists_iff_of_departed h.departed_end, h.atRest.releasedUnlessHeld _⟩
  · -- what is cached and not exclusive is in use
    rw [← hprepared.balanced.clients_eq]
    exact Nat.pos_of_ne_zero fun hzero => hid (h.owned.exclusive_of_unheld h.cached hzero)
  · -- nobody is told of an entry that was not exclusive
    rw [h.told hobserver, if_neg hid, List.append_nil]
  · -- from its departure on, the entry is as the removal has left it
    refine hprepared.adopt.own.outside h.departed fun e' he' => ?_
    rw [← Option.some.inj (hthen.symm.trans he')]
    rfl
  · show i.state.Outside x.2.value e.markOrphan.value
    exact h.later.outside_of_mem hi h.departed hthen
  · show s'.Outside x.2.value e.markOrphan.value
    exact h.atRest.consistent.outside h.departed_end fun e' he' => h.later.outlives.value_eq hthen he'

end Dismisses

/-! ## Every session -/

theorem Unfolds.partsAlong (h : s.Unfolds [] log s') (hkept : s.KeepsInFlight) (hend : s'.AtRest)
    (hshares : ∀ i ∈ log, i.state.cache.policy.SharesFit) : PartsAlong log s' := by
  rintro before m w p after rfl hdue hroom x hx haccepted
  obtain ⟨_, _, _, hprepared⟩ :=
    h.proceeds.prepared (i := ⟨m, .asked (.removeAll w p)⟩) (by simp) rfl
  have hremoves := hprepared.owned.removesByKey hprepared.determined hdue
    (hshares ⟨m, .asked (.removeAll w p)⟩ (by simp)) hroom
  obtain ⟨e, he, _⟩ := hprepared.owned.entry_of_cached x hx
  have hdismisses : Dismisses s before m w p after s' x e := ⟨h, hkept, hend, hremoves, hx, haccepted, he⟩
  exact ⟨e, he, hdismisses.partsWith, hdismisses.leavesToClients⟩

theorem Reachable.sharesFit (h : s.Reachable) : s.cache.policy.SharesFit := by
  obtain ⟨setup, steps, hsetup, hsteps, rfl⟩ := h
  obtain ⟨_, _, htrace⟩ := (atRest_start hsetup).trace_runAll steps hsteps
  exact htrace.sharesFit (sharesFit_policyOf setup)

/-- What a removal answers. -/
theorem perform_removeAll (hp : p.KeyDetermined) (hpresent : s.present = true) :
    ∃ asked, (s.perform (.removeAll p)).2 = .removed (s.cache.cached.keys.countP (p.answer [])) asked := by
  obtain ⟨respond, _, hperform⟩ := s.exists_performWith
  refine ⟨(s.cache.removeAll s.surroundings p).2.1.reverse, ?_⟩
  rw [hperform, performWith, withCache, if_pos hpresent, ← Cache.reported_removeAll hp s.cache s.surroundings]
  rfl

/-- From a session that can be reached on, at any moment at which every pool has room and no new limits are due, a
removal by keys takes out exactly what is cached under the keys. The exclusive entries are gone after that, with
one notice to each observer, and the entries in use are left to their clients. -/
theorem Reachable.removes_by_key (h : s.Reachable) {steps : List (Step κ)}
    (hsteps : ∀ step ∈ steps, step.KeyDetermined) :
    (∃ log, s.Unfolds [] log (s.runAll steps) ∧
      askedOf log = (s.runAll steps).operationsSince s ∧ (s.runAll steps).told = s.told ++ announcedOf log ∧
      Along (fun _ c => ∀ w (p : Predicate κ), p.KeyDetermined → c.reloadDue w.now = false → c.HasRoom →
        c.RemovesByKey w p) log (s.runAll steps) ∧
      PartsAlong log (s.runAll steps)) ∧
      ((s.runAll steps).present = true → ∀ p : Predicate κ, p.KeyDetermined → ∃ asked,
        ((s.runAll steps).perform (.removeAll p)).2
          = .removed ((s.runAll steps).cache.cached.keys.countP (p.answer [])) asked) := by
  -- ownership and shares that fit are all that a removal asks of the moment, and every run keeps both
  have hrest := h.atRest
  have hend := (hrest.trace_runAll steps hsteps).1
  obtain ⟨log, hlog⟩ := hrest.unfolds_runAll steps hsteps
  have hfollows := hlog.proceeds.follows
  have halong : Along (fun _ c => c.Owned ∧ c.policy.SharesFit) log (s.runAll steps) :=
    hlog.proceeds.along (fun _ _ _ hforgets hc => ⟨hforgets.owned hc.1, hforgets.policy_eq ▸ hc.2⟩)
      (fun _ x hready hc => ⟨hready.owned_after, (x.cache.keeps_apply x.op).shares hc.2⟩)
      hrest.keepsInFlight hend ⟨hrest.consistent.owned, h.sharesFit⟩
  refine ⟨⟨log, hlog, by simp [operationsSince, hfollows.operations_eq], hfollows.told_eq, ?_, ?_⟩,
    fun hpresent p hp => perform_removeAll hp hpresent⟩
  · -- at each moment, ownership and shares make the removal exact
    exact halong.imp fun _ c hc w p hp hdue hroom => hc.1.removesByKey hp hdue hc.2 hroom
  · refine hlog.partsAlong hrest.keepsInFlight hend fun i hi => ?_
    obtain ⟨before, after, hsplit⟩ := List.append_of_mem hi
    exact (halong.at_each before i after hsplit).2

/-- Two halves of the same size, with room for five entries in all. -/
def roomForFive : Setup Nat where
  tuning := some { fraction := 500 }
  limits := { maxEntries := 5 }
  defaultObserver := some "o"

/-- A value is held by a reference. Three are not, one of which has been used twice, and another one is held as a
handle outside. -/
def oneHeldThreeNot : List (Step Nat) :=
  [.request (.put 1 { tag := "a", size := 10 } none (some "r")),
    .request (.put 2 { tag := "b", size := 10 } none none),
    .request (.put 3 { tag := "c", size := 10 } none none), .request (.get 3 none),
    .request (.newValue { tag := "d", size := 10 } (some "h")), .request (.store 4 "h" none none)]

/-- The key is any but the third one. -/
def otherThanThird : Predicate Nat :=
  .ofKey fun k => k ≠ 3

/-- All but the value used twice is removed, and this one stays in its place, though the budget is another one. Of
the others, the one that nobody holds is released, and the one held by the reference is when it is closed. -/
theorem removes_by_key_otherThanThird :
    ((start roomForFive).runAll oneHeldThreeNot).cache.RemovesByKey
        ((start roomForFive).runAll oneHeldThreeNot).surroundings otherThanThird ∧
      (∃ asked, (((start roomForFive).runAll oneHeldThreeNot).perform (.removeAll otherThanThird)).2
        = .removed 3 asked) ∧
      ((start roomForFive).runAll oneHeldThreeNot).cache.policy.pools.map Pool.keys = [[2, 4], [3]] ∧
      ((start roomForFive).runAll (oneHeldThreeNot ++
        [.request (.removeAll otherThanThird)])).cache.policy.pools.map Pool.keys = [[], [3]] ∧
      ((List.range 4).map ((start roomForFive).runAll (oneHeldThreeNot ++
        [.request (.removeAll otherThanThird)])).releases) = [0, 1, 0, 0] ∧
      ((List.range 4).map ((start roomForFive).runAll (oneHeldThreeNot ++
        [.request (.removeAll otherThanThird), .request (.closeRef "r")])).releases) = [1, 1, 0, 0] := by
  have hstart : (start roomForFive).Reachable :=
    ⟨roomForFive, [], (fun _ hr => nomatch hr), (fun _ hstep => nomatch hstep), rfl⟩
  have hsteps : ∀ step ∈ oneHeldThreeNot, step.KeyDetermined := by
    intro step hstep
    simp only [oneHeldThreeNot, List.mem_cons, List.not_mem_nil, or_false] at hstep
    rcases hstep with rfl | rfl | rfl | rfl | rfl | rfl <;> trivial
  -- what is left to check about the moment is closed, and computed
  obtain ⟨⟨_, _, _, _, halong, _⟩, hanswers⟩ := hstart.removes_by_key hsteps
  have hkeys : otherThanThird.KeyDetermined := Predicate.keyDetermined_ofKey _
  obtain ⟨hpresent, hdue, hnone, hcount⟩ : ((start roomForFive).runAll oneHeldThreeNot).present = true ∧
      ((start roomForFive).runAll oneHeldThreeNot).cache.reloadDue
        ((start roomForFive).runAll oneHeldThreeNot).surroundings.now = false ∧
      (((start roomForFive).runAll oneHeldThreeNot).cache.policy.evict (fun _ => 0)
        ((start roomForFive).runAll oneHeldThreeNot).cache.queueBudget.1
        ((start roomForFive).runAll oneHeldThreeNot).cache.queueBudget.2).1 = [] ∧
      ((start roomForFive).runAll oneHeldThreeNot).cache.cached.keys.countP
        (otherThanThird.answer []) = 3 := by decide +kernel
  have hanswer := hanswers hpresent otherThanThird hkeys
  rw [hcount] at hanswer
  have hroom := (Policy.evict_fst_eq_nil_iff _ _ _ _).1 hnone
  exact ⟨halong.at_end (.inl hpresent) _ _ hkeys hdue hroom, hanswer, by decide +kernel⟩

end Session

end RefCache
