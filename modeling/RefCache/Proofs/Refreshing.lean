import RefCache.Proofs.Rejection
import RefCache.Proofs.Session.Subsiding
import RefCache.Proofs.Session.Asks
import RefCache.Proofs.Stack.Reading

/-!
# Reading is refreshing, in every session

In a single queue there is always room for its entries (`Session.Roomy`). So wherever a session asks for a key while
no new limits are due, reading is refreshing (`Cache.ReadsLikeProbe`). For a user of the session, to ask for a key
and to close the reference comes to the same as a probe, as long as observers leave it at that
(`Session.RefreshesLikeProbe`).
-/

namespace RefCache

universe u

variable {κ : Type u} [Key κ]

namespace Session

/-- To ask for the key, for a reference of that name, and then to close the reference leaves the cache as a probe of
the key does. -/
def RefreshesLikeProbe (s : Session κ) (k : κ) (name : String) : Prop :=
  (s.perform (.probe k)).1.cache.SameButUses
    ((s.perform (.get k (some name))).1.perform (.closeRef name)).1.cache

/-- Nothing gets in the way of that: the cache is there, observers do not react, the name is not in use, and no new
limits are due, neither when the key is asked for nor when the reference is closed. -/
structure Undisturbed (s : Session κ) (k : κ) (name : String) : Prop where
  present : s.present = true
  silent : s.reactions = []
  unnamed : s.refs[name]? = none
  not_due : s.cache.reloadDue s.surroundings.now = false
  not_due_then : s.cache.reloadDue (s.perform (.get k (some name))).1.surroundings.now = false

variable {s t : Session κ} {k : κ} {name : String} {id : EntryId} {respond : Responder κ} {held : List ClientId}
  {grip : List ValueId}

/-! ## One session -/

theorem placeRef_of_unused (h : s.refs[name]? = none) (respond : Responder κ) (c : ClientId) :
    s.placeRef respond c (some name) = { s with refs := s.refs.insert name c } := by
  unfold placeRef
  dsimp only
  rw [h]

/-- A request that is answered, for a reference of an unused name: the cache is what the operation makes of it, and
the reference has its name. -/
theorem Consistent.answered_named (h : s.Consistent s.inFlight held grip) (hsilent : s.reactions = [])
    (hfound : (s.cache.get s.surroundings k).1 = some id) (hname : s.refs[name]? = none)
    (ht : (s.get respond k (some name)).1 = t) :
    (s.cache.get s.surroundings k).2.cache.Forgets t.cache ∧ t.reactions = [] ∧
      t.refs[name]? = some s.clients.next ∧ t.clients.get? s.clients.next = some { entry := id } := by
  have hprepared := h.prepared_answered hfound
  obtain ⟨t₁, ht₁⟩ : ∃ t₁, (s.afterReading.addClient id).2.finish respond (.get s.surroundings k)
    (s.cache.apply (.get s.surroundings k)) = t₁ := ⟨_, rfl⟩
  have hsubsides : ((s.afterReading.addClient id).2.adopt (.get s.surroundings k)
      (s.cache.apply (.get s.surroundings k))).Subsides t₁ := ht₁ ▸ hprepared.subsides respond hsilent
  -- no name changes before the reference gets its own, so there is no former one to drop
  have hunused : t₁.refs[name]? = none := hsubsides.refs_eq ▸ hname
  rw [fst_get_of_found hfound, ht₁, placeRef_of_unused hunused] at ht
  subst ht
  refine ⟨hsubsides.forgets, hsubsides.reactions_eq.trans hsilent, by simp, ?_⟩
  show t₁.clients.get? s.clients.next = _
  rw [hsubsides.clients_eq]
  show (s.clients.add { entry := id }).get? s.clients.next = _
  rw [Register.get?_add, if_pos rfl]

/-- The only reference of a client is closed: the cache is what the release makes of it. -/
theorem Consistent.forgets_closeRef {c : ClientId} (h : s.Consistent s.inFlight held grip)
    (hpresent : s.present = true) (hsilent : s.reactions = []) (hrespond : Sound respond)
    (hname : s.refs[name]? = some c) (hclient : s.clients.get? c = some { entry := id }) {c₀ : Cache κ}
    (hforgets : c₀.Forgets s.cache) : (c₀.release s.surroundings id).cache.Forgets
      (({ s with refs := s.refs.erase name } : Session κ).dropRef respond c).cache := by
  obtain ⟨hprepared, hsubsides⟩ :=
    (h.unnameRef hname).own.subsides_dropLast hrespond hpresent hsilent hclient (Nat.le_refl 1)
  exact (hprepared.replayed hforgets).cache.trans hsubsides.forgets

section

variable (h : s.AtRest) (hpresent : s.present = true) (hsilent : s.reactions = [])

include h hpresent hsilent

theorem AtRest.forgets_probe (k : κ) : (s.cache.probe k).cache.Forgets (s.perform (.probe k)).1.cache := by
  obtain ⟨respond, _, hperform⟩ := s.exists_performWith
  have hconsistent : s.Consistent s.inFlight [] [] := h.inFlight_eq.symm ▸ h.consistent
  have hprepared : s.Prepared (.probe k) [] [] := hconsistent.prepared_self trivial trivial rfl rfl
  rw [hperform, performWith, withCache, if_pos hpresent]
  exact (hprepared.subsides respond hsilent).forgets

/-- To ask for a key and to close the reference is what the two operations of the cache come to. -/
theorem AtRest.forgets_read (hname : s.refs[name]? = none) (ht : (s.perform (.get k (some name))).1 = t) :
    (s.cache.read s.surroundings t.surroundings k).Forgets (t.perform (.closeRef name)).1.cache := by
  obtain ⟨respond, hrespond, hperform⟩ := s.exists_performWith
  obtain ⟨respond', hrespond', hperform'⟩ := t.exists_performWith
  have hconsistent : s.Consistent s.inFlight [] [] := h.inFlight_eq.symm ▸ h.consistent
  have hsettled := (hconsistent.perform (r := .get k (some name)) trivial).1
  rw [ht] at hsettled
  rw [hperform, performWith, withCache, if_pos hpresent] at ht
  rw [hperform', performWith]
  unfold Cache.read
  cases hfound : (s.cache.get s.surroundings k).1 with
  | none =>
    -- there is no reference to be closed
    have hsubsides := (hconsistent.prepared_missed hfound).subsides respond hsilent
    rw [fst_get_of_missed hfound] at ht
    rw [show t.refs[name]? = none from ht ▸ hsubsides.refs_eq ▸ hname]
    exact ht ▸ hsubsides.forgets
  | some id =>
    obtain ⟨hforgets, hsilent', hnamed, hclient⟩ :=
      hconsistent.answered_named hsilent hfound hname ht
    rw [hnamed]
    exact hsettled.own.forgets_closeRef (hsettled.leads.present_eq.trans hpresent) hsilent' hrespond'.sound hnamed
      hclient hforgets

/-- Where reading is refreshing for the cache, it is so for the session. -/
theorem AtRest.refreshesLikeProbe (hname : s.refs[name]? = none)
    (hreads : s.cache.ReadsLikeProbe s.surroundings (s.perform (.get k (some name))).1.surroundings k) :
    s.RefreshesLikeProbe k name := by
  -- there are no orphans to be forgotten, on neither way
  have hkept : (s.cache.probe k).cache.KeepsOrphans [] := by
    rw [hreads.probe_eq]
    exact h.consistent.kept
  have hprobed := (h.forgets_probe hpresent hsilent k).sameButUses hkept
  have hread := (h.forgets_read hpresent hsilent hname rfl).sameButUses (hreads.same.keepsOrphans hkept)
  exact hprobed.symm.trans (hreads.same.trans hread)

end

/-! ## Every session -/

/-- In every session with a single queue, whatever limits it has been offered, at any moment when no new ones are
due, reading is refreshing. -/
theorem reading_refreshes (setup : Setup κ) (steps : List (Step κ)) (hsetup : setup.KeyDetermined)
    (hsteps : ∀ step ∈ steps, step.KeyDetermined) (hqueue : setup.tuning = none) :
    (∃ log, (start setup).Unfolds [] log ((start setup).runAll steps) ∧
      askedOf log = ((start setup).runAll steps).operations.reverse ∧
      Along (fun _ c => ∀ w w' k, c.reloadDue w.now = false → c.reloadDue w'.now = false →
        c.ReadsLikeProbe w w' k) log ((start setup).runAll steps)) ∧
      ∀ k name, ((start setup).runAll steps).Undisturbed k name →
        ((start setup).runAll steps).RefreshesLikeProbe k name := by
  obtain ⟨log, hlog, hasked, halong⟩ := exists_along (Q := fun l c => c.Owned ∧ Roomy setup l c)
    (fun _ _ _ hforgets h => ⟨hforgets.owned h.1, h.2.of_forgets hforgets⟩)
    (fun _ _ hready h => ⟨hready.owned_after, h.2.ask hready⟩)
    setup steps hsetup hsteps ⟨(atRest_start hsetup).consistent.owned, roomy_start setup⟩
  have hreads : Along (fun _ c => ∀ w w' k, c.reloadDue w.now = false → c.reloadDue w'.now = false →
      c.ReadsLikeProbe w w' k) log ((start setup).runAll steps) := halong.imp fun _ _ h _ _ k hdue hdue' =>
    h.1.readsLikeProbe (h.2.learns_nothing hqueue) (h.2.of_queue hqueue) hdue hdue' k
  refine ⟨⟨log, hlog.unfolds, hasked, hreads⟩, fun k name h => ?_⟩
  have hrest := ((atRest_start hsetup).trace_runAll steps hsteps).1
  exact hrest.refreshesLikeProbe h.present h.silent h.unnamed
    (hreads.at_end (.inl h.present) _ _ k h.not_due h.not_due_then)

/-- Three values come in, and one of them is held. -/
def oneHeldAmongThree : List (Step Nat) :=
  [.request (.put 1 { tag := "a", size := 10 } none none),
    .request (.put 2 { tag := "b", size := 10 } none (some "r")),
    .request (.put 3 { tag := "c", size := 10 } none none)]

/-- To ask for the oldest one brings it to the end of the queue. -/
theorem reading_refreshes_oneHeldAmongThree :
    ((∃ log, (start {}).Unfolds [] log ((start {}).runAll oneHeldAmongThree) ∧
      askedOf log = ((start {}).runAll oneHeldAmongThree).operations.reverse ∧
      Along (fun _ c => ∀ w w' k, c.reloadDue w.now = false → c.reloadDue w'.now = false →
        c.ReadsLikeProbe w w' k) log ((start {}).runAll oneHeldAmongThree)) ∧
      ∀ k name, ((start {}).runAll oneHeldAmongThree).Undisturbed k name →
        ((start {}).runAll oneHeldAmongThree).RefreshesLikeProbe k name) ∧
      ((start {}).runAll oneHeldAmongThree).Undisturbed 1 "q" ∧
      ((start {}).runAll oneHeldAmongThree).cache.policy.pools.map Pool.keys = [[1, 3]] ∧
      ((start {}).runAll (oneHeldAmongThree ++ [.request (.get 1 (some "q")),
        .request (.closeRef "q")])).cache.policy.pools.map Pool.keys = [[3, 1]] := by
  refine ⟨reading_refreshes {} oneHeldAmongThree (fun _ hr => nomatch hr) (fun step hstep => ?_) rfl,
    ⟨by decide +kernel, rfl, by decide +kernel, by decide +kernel, by decide +kernel⟩, by decide +kernel,
    by decide +kernel⟩
  simp only [oneHeldAmongThree, List.mem_cons, List.not_mem_nil, or_false] at hstep
  rcases hstep with rfl | rfl | rfl <;> trivial

end Session

end RefCache
