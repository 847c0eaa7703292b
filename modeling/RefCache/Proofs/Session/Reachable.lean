import RefCache.Proofs.Session.Requests
import RefCache.Session.Step

/-!
# Sessions that can be reached

Between steps no operation is under way: `Session.AtRest`. A session begins at rest (`atRest_start`),
every step takes a session at rest to one at rest (`AtRest.run`), and so does every run
(`AtRest.runAll`). What becomes of the cache on the way is a trace of operations, whose limits are
those that were offered at the time.
-/

namespace RefCache

universe u

variable {κ : Type u}

/-- The predicate of the step, if it has one, looks at the key alone. -/
def Step.KeyDetermined : Step κ → Prop
  | .request r => r.KeyDetermined
  | _ => True

/-- The limits that are offered from the step on, if it changes them. -/
def Step.offers? : Step κ → Option Limits
  | .offer limits => some limits
  | _ => none

/-- The limits that the operation may take over are as described. -/
def Operation.OfferedUnder (P : Limits → Prop) (op : Operation κ) : Prop :=
  ∀ w, op.surroundings? = some w → P w.offered

/-- All observers react with requests about keys alone. -/
def Setup.KeyDetermined (setup : Setup κ) : Prop :=
  ∀ r ∈ setup.reactions, r.KeyDetermined

variable [Key κ]

/-- What a cache goes through while the limits it is offered are as described. -/
def Cache.TraceUnder (P : Limits → Prop) (c c' : Cache κ) : Prop :=
  ∃ ops, c.Trace ops c' ∧ ∀ op ∈ ops, op.OfferedUnder P

namespace Session

/-- Nothing is under way, and everything is as it should be. -/
structure AtRest (s : Session κ) : Prop where
  consistent : s.Consistent [] [] []
  inFlight_eq : s.inFlight = []
  cleared : s.Cleared

/-- A session that some run of steps can lead to, all predicates being about keys alone. -/
def Reachable (s : Session κ) : Prop :=
  ∃ (setup : Setup κ) (steps : List (Step κ)), setup.KeyDetermined ∧
    (∀ step ∈ steps, step.KeyDetermined) ∧ s = (start setup).runAll steps

variable {s s' : Session κ}

/-- At rest clients are held by their names. -/
theorem AtRest.refsOf_pos (h : s.AtRest) {c : ClientId} {client : Client}
    (hclient : s.clients.get? c = some client) : 0 < s.refsOf c := by
  have hcopies := h.consistent.balanced.copies_eq c
  rw [copiesOf, Register.readout_of_some _ _ hclient] at hcopies
  exact Nat.lt_of_lt_of_eq (h.consistent.balanced.copies_pos c client hclient) hcopies

/-! ## The beginning -/

theorem owned_create (policy : Policy κ) (hpolicy : policy.items = []) (w : Surroundings) :
    (Cache.create policy w).cache.Owned where
  entry_of_cached := fun _ hx => nomatch hx
  cached_of_entry := by
    intro id e he
    rw [show (Cache.create policy w).cache.entries.get? id = none from Register.get?_empty id] at he
    exact nomatch he
  idle_perm := by
    show ([] : List (κ × Sized EntryId)).Perm policy.items
    rw [hpolicy]

/-- The policy of a new session. -/
def policyOf (setup : Setup κ) : Policy κ :=
  match setup.tuning with
  | none => .newLru
  | some tuning => .newAdaptive tuning

theorem items_policyOf (setup : Setup κ) : (policyOf setup).items = [] := by
  unfold policyOf
  split
  · exact Policy.items_newLru
  · exact Policy.items_newAdaptive _

theorem cache_start (setup : Setup κ) : (start setup).cache
    = (Cache.create (policyOf setup) ⟨setup.clock.now, setup.limits⟩).cache :=
  rfl

theorem ids_start (setup : Setup κ) : (start setup).cache.policy.ids = [] := by
  rw [Policy.ids_eq_map_items]
  show (policyOf setup).items.map _ = []
  rw [items_policyOf, List.map_nil]

theorem atRest_start {setup : Setup κ} (hsetup : setup.KeyDetermined) : (start setup).AtRest where
  consistent :=
    { owned := owned_create _ (items_policyOf setup) _
      -- there is nothing yet: no entry, no client, no value
      kept := by
        intro id e he
        rw [show (start setup).cache.entries.get? id = none from Register.get?_empty id] at he
        exact nomatch he
      balanced :=
        { clients_eq := fun _ => rfl
          copies_eq := fun _ => rfl
          copies_pos := fun _ _ h => nomatch h
          handles_eq := fun _ => rfl
          handles_pos := fun _ _ h => nomatch h
          created_length := rfl
          created_as := fun _ _ h => nomatch h
          releases_eq := fun _ => rfl
          measured := fun id e he => nomatch (Register.get?_empty id).symm.trans he }
      reactions := hsetup }
  inFlight_eq := rfl
  cleared := fun _ id => Register.get?_empty id

/-! ## One step -/

/-- What a step leads to: a session at rest again, whose cache went through operations under limits
that were offered. -/
structure Advances (P : Limits → Prop) (s s' : Session κ) : Prop where
  atRest : s'.AtRest
  offered : P s'.offered
  trace : s.cache.TraceUnder P s'.cache
  operations : ∀ op ∈ s'.operations, op ∈ s.operations ∨ op.OfferedUnder P

variable {P : Limits → Prop}

theorem Advances.trans {s'' : Session κ} (h : Advances P s s') (h' : Advances P s' s'') :
    Advances P s s'' where
  atRest := h'.atRest
  offered := h'.offered
  trace := by
    obtain ⟨ops, htrace, hops⟩ := h.trace
    obtain ⟨ops', htrace', hops'⟩ := h'.trace
    refine ⟨ops ++ ops', htrace.trans htrace', fun op hop => ?_⟩
    exact (List.mem_append.1 hop).elim (hops op) (hops' op)
  operations := fun op hop => (h'.operations op hop).elim (h.operations op) .inr

/-- A step that leaves cache, books and observers alone. -/
theorem AtRest.advances_of_eq (h : s.AtRest) (hP : P s'.offered) (hcache : s'.cache = s.cache)
    (hpresent : s'.present = s.present) (hclients : s'.clients = s.clients)
    (hinFlight : s'.inFlight = s.inFlight) (hreactions : s'.reactions = s.reactions)
    (hoperations : s'.operations = s.operations)
    (hbalanced : s'.Balanced s.cache.entries [] []) : Advances P s s' where
  atRest :=
    { consistent := ⟨hcache ▸ h.consistent.owned, hcache ▸ h.consistent.kept, hcache ▸ hbalanced,
        hreactions ▸ h.consistent.reactions⟩
      inFlight_eq := hinFlight.trans h.inFlight_eq
      -- nobody shares the cache afterwards who did not before
      cleared := by
        intro hdeserted
        rw [deserted, hpresent, hclients, hinFlight] at hdeserted
        rw [hcache]
        exact h.cleared hdeserted }
  offered := hP
  trace := ⟨[], hcache ▸ .start, fun _ hop => nomatch hop⟩
  operations := fun op hop => .inl (hoperations ▸ hop)

/-- Whatever happens until a session has settled, the cache is offered what was offered at the beginning. -/
theorem Settles.advances {s₁ : Session κ} (h : s₁.Settles s' [] [] []) (hcleared : s'.Cleared) (hP : P s₁.offered)
    (hcache : s₁.cache = s.cache) (hoperations : s₁.operations = s.operations) : Advances P s s' := by
  obtain ⟨ops, hasked, htrace, hops⟩ := h.leads.trace
  have hoffered : ∀ op ∈ ops, op.OfferedUnder P := fun op hop w hw => (hops op hop w hw).symm ▸ hP
  refine ⟨⟨h.consistent, h.inFlight_eq, hcleared⟩, h.leads.offered_eq.symm ▸ hP,
    ⟨ops, hcache ▸ htrace, hoffered⟩, fun op hop => ?_⟩
  rw [hasked, hoperations] at hop
  exact (List.mem_append.1 hop).elim (fun hop => .inr (hoffered op (List.mem_reverse.1 hop))) .inl

theorem AtRest.perform (h : s.AtRest) (hP : P s.offered) {r : Request κ} (hr : r.KeyDetermined) :
    Advances P s (s.perform r).1 := by
  have hconsistent : s.Consistent s.inFlight [] [] := h.inFlight_eq.symm ▸ h.consistent
  obtain ⟨hsettles, hcleared⟩ := hconsistent.perform hr
  rw [h.inFlight_eq] at hsettles
  exact hsettles.advances (hcleared h.cleared) hP rfl rfl

/-- Requests that are made one after the other, each for a name. -/
theorem AtRest.performAll (names : List String) (request : String → Request κ)
    (hrequest : ∀ name, (request name).KeyDetermined) (h : s.AtRest) (hP : P s.offered) :
    Advances P s (names.foldl (fun s name => (s.perform (request name)).1) s) := by
  induction names generalizing s with
  | nil => exact h.advances_of_eq hP rfl rfl rfl rfl rfl rfl h.consistent.balanced
  | cons name rest ih =>
    have hfirst := h.perform hP (hrequest name)
    exact hfirst.trans (ih hfirst.atRest hfirst.offered)

/-- The handle to the cache goes, and nothing else for now. -/
theorem AtRest.without_cache (h : s.AtRest) :
    ({ s with present := false } : Session κ).Consistent s.inFlight [] [] := by
  rw [h.inFlight_eq]
  exact ⟨h.consistent.owned, h.consistent.kept,
    h.consistent.balanced.congr rfl rfl rfl rfl rfl fun _ => rfl, h.consistent.reactions⟩

theorem AtRest.dropCache (h : s.AtRest) (hP : P s.offered) : Advances P s s.dropCache := by
  unfold Session.dropCache
  split
  · -- the handle to the cache goes first, then whatever nobody shares any more
    let s₁ : Session κ := { s with present := false }
    have hs₁ : s₁.Consistent s₁.inFlight [] [] := h.without_cache
    obtain ⟨hsettles, hcleared⟩ := hs₁.tearDownIfDeserted
    rw [show s₁.inFlight = [] from h.inFlight_eq] at hsettles
    exact hsettles.advances hcleared hP rfl rfl
  · exact h.advances_of_eq hP rfl rfl rfl rfl rfl rfl h.consistent.balanced

/-- Every step takes a session at rest to a session at rest. -/
theorem AtRest.run (h : s.AtRest) (hP : P s.offered) {step : Step κ} (hstep : step.KeyDetermined)
    (hoffers : ∀ limits, step.offers? = some limits → P limits) : Advances P s (s.run step).1 := by
  -- of the books nothing changes in the steps that are about the surroundings
  have hbooks : ∀ s' : Session κ, s'.clients = s.clients → s'.refs = s.refs →
      s'.values = s.values → s'.handles = s.handles → s'.created = s.created →
      s'.events = s.events → s'.Balanced s.cache.entries [] [] := by
    intro s' hclients hrefs hvalues hhandles hcreated hevents
    refine h.consistent.balanced.congr hclients hrefs hvalues hhandles hcreated fun v => ?_
    rw [releases, releases, hevents]
  cases step with
  | request r => exact h.perform hP hstep
  | advance time =>
    exact h.advances_of_eq hP rfl rfl rfl rfl rfl rfl (hbooks _ rfl rfl rfl rfl rfl rfl)
  | offer limits =>
    exact h.advances_of_eq (hoffers limits rfl) rfl rfl rfl rfl rfl rfl (hbooks _ rfl rfl rfl rfl rfl rfl)
  | setRatio ratio =>
    exact h.advances_of_eq hP rfl rfl rfl rfl rfl rfl (hbooks _ rfl rfl rfl rfl rfl rfl)
  | dropCache => exact h.dropCache hP
  | closeRefs => exact h.performAll s.refs.keys .closeRef (fun _ => trivial) hP
  | closeHandles => exact h.performAll s.handles.keys .closeHandle (fun _ => trivial) hP
  | askPolicy k =>
    -- asking the policy is a call of it, and calls are not in the books
    show Advances P s (s.withCache _).1
    unfold withCache
    split
    · exact h.advances_of_eq hP rfl rfl rfl rfl rfl rfl (hbooks _ rfl rfl rfl rfl rfl rfl)
    · exact h.advances_of_eq hP rfl rfl rfl rfl rfl rfl h.consistent.balanced

/-! ## Many steps -/

theorem AtRest.runAll (steps : List (Step κ)) (hsteps : ∀ step ∈ steps, step.KeyDetermined)
    (hoffers : ∀ step ∈ steps, ∀ limits, step.offers? = some limits → P limits) (h : s.AtRest)
    (hP : P s.offered) : Advances P s (s.runAll steps) := by
  induction steps generalizing s with
  | nil => exact h.advances_of_eq hP rfl rfl rfl rfl rfl rfl h.consistent.balanced
  | cons step rest ih =>
    have hfirst := h.run hP (hsteps step List.mem_cons_self) (hoffers step List.mem_cons_self)
    exact hfirst.trans (ih (fun step hstep => hsteps step (List.mem_cons_of_mem _ hstep))
      (fun step hstep => hoffers step (List.mem_cons_of_mem _ hstep)) hfirst.atRest hfirst.offered)

/-- Every session that can be reached is at rest. -/
theorem Reachable.atRest (h : s.Reachable) : s.AtRest := by
  obtain ⟨setup, steps, hsetup, hsteps, rfl⟩ := h
  exact ((atRest_start hsetup).runAll (P := fun _ => True) steps hsteps (fun _ _ _ _ => trivial)
    trivial).atRest

/-- Further steps from a session at rest, whatever limits are offered. -/
theorem AtRest.trace_runAll (h : s.AtRest) (steps : List (Step κ))
    (hsteps : ∀ step ∈ steps, step.KeyDetermined) :
    (s.runAll steps).AtRest ∧ ∃ ops, s.cache.Trace ops (s.runAll steps).cache := by
  have hadvances := h.runAll (P := fun _ => True) steps hsteps (fun _ _ _ _ => trivial) trivial
  obtain ⟨ops, htrace, _⟩ := hadvances.trace
  exact ⟨hadvances.atRest, ops, htrace⟩

end Session

end RefCache
