import RefCache.Proofs.Chronicle.Basic
import RefCache.Proofs.Session.Histories
import RefCache.Proofs.Session.Piecewise

/-!
# The chronicle of a session

Whatever is requested, by whomever, and whatever predicates answer: all that becomes of the cache of a
session is written down in a chronicle, whose operations are those in the journal of the session
(`exists_chronicle`). Where predicates look at keys alone, every operation in it was asked for in good
order (`exists_chronicle_of_keyDetermined`).
-/

namespace RefCache

universe u

variable {κ : Type u} [Key κ]

namespace Session

/-- The operations in the journal of the session, each with the cache that was asked, and nothing besides
them, have made its cache out of `c`. -/
structure ChronicledFrom (s : Session κ) (c : Cache κ) (l : List (Asked κ)) : Prop where
  chronicle : c.Chronicle l s.cache
  operations_eq : l.map Asked.op = s.operations.reverse

/-- The way from a session to a later one is in the chronicle. -/
structure Recounts (s : Session κ) (l : List (Asked κ)) (s' : Session κ) : Prop where
  chronicle : s.cache.Chronicle l s'.cache
  operations_eq : s'.operations = (l.map Asked.op).reverse ++ s.operations

/-- There is a chronicle of the way to a later session. -/
def Leaves (s s' : Session κ) : Prop :=
  ∃ l, s.Recounts l s'

variable {s s' s'' : Session κ}

theorem Leaves.of_rests (hrests : s.cache.Rests s'.cache) (hops : s'.operations = s.operations) :
    s.Leaves s' :=
  ⟨[], .rest .start hrests, hops⟩

/-- Changes that leave cache and journal alone. -/
theorem Leaves.of_eq (hcache : s'.cache = s.cache) (hops : s'.operations = s.operations) :
    s.Leaves s' :=
  .of_rests (hcache ▸ .refl _) hops

theorem Leaves.trans (h : s.Leaves s') (h' : s'.Leaves s'') : s.Leaves s'' := by
  obtain ⟨l, hchronicle, hops⟩ := h
  obtain ⟨l', hchronicle', hops'⟩ := h'
  exact ⟨l ++ l', hchronicle.trans hchronicle', by simp [hops', hops]⟩

/-! ## Letting entries go -/

theorem rests_dropUnlessHeld (s : Session κ) (id : EntryId) :
    s.cache.Rests (s.dropUnlessHeld id).cache := by
  rcases s.dropUnlessHeld_cases id with ⟨heq, _⟩ | ⟨e, _, _, heq⟩
  · rw [heq]
    exact .refl _
  · rw [heq, (sameHolders_dropHandle _ _).cache_eq]
    exact s.cache.rests_forget id

theorem rests_foldl_dropUnlessHeld (ids : List EntryId) (s : Session κ) :
    s.cache.Rests (ids.foldl dropUnlessHeld s).cache := by
  induction ids generalizing s with
  | nil => exact .refl _
  | cons id rest ih => exact (s.rests_dropUnlessHeld id).trans (ih _)

/-- What is torn down keeps its limits, and what the policy has learned. -/
theorem rests_tearDownIfDeserted (s : Session κ) : s.cache.Rests s.tearDownIfDeserted.cache := by
  unfold tearDownIfDeserted
  split
  · exact .refl _
  · dsimp only
    -- the map is emptied, then the policy; entries are dropped after each
    let s₁ : Session κ := { s with cache := { s.cache with cached := .empty } }
    let s₂ : Session κ := s.cache.cached.values.foldl dropUnlessHeld s₁
    let s₃ : Session κ := { s₂ with cache := { s₂.cache with policy := s₂.cache.policy.emptied } }
    have hcached : s₁.cache.Rests s₂.cache := rests_foldl_dropUnlessHeld _ s₁
    have hexclusive := rests_foldl_dropUnlessHeld s₂.cache.policy.ids s₃
    have hcache₂ := (drops_foldl s₁ s.cache.cached.values).cache_eq
    have hcache₃ := (drops_foldl s₃ s₂.cache.policy.ids).cache_eq
    refine ⟨hexclusive.next_eq.trans hcached.next_eq,
      fun id e he => hcached.kept id e (hexclusive.kept id e he),
      hexclusive.limits_eq.trans hcached.limits_eq, .inr ⟨?_, ?_⟩⟩
    · rw [hcache₃]
      exact congrArg Cache.cached hcache₂
    · rw [hcache₃]
      exact congrArg (fun c => c.policy.emptied) hcache₂

/-- Whatever becomes of a session, it is written down. -/
theorem piecewise_leaves : Piecewise (Leaves : Session κ → Session κ → Prop) where
  trans := Leaves.trans
  books hcache hops _ := .of_eq hcache hops
  dropUnlessHeld s id := .of_rests (s.rests_dropUnlessHeld id) (s.dropUnlessHeld_frame id).1.operations_eq
  tearDownIfDeserted s := .of_rests s.rests_tearDownIfDeserted s.frame_tearDownIfDeserted.1.operations_eq
  adopt s op := ⟨[⟨s.cache, op⟩], .ask .start op, rfl⟩

theorem Recounts.chronicledFrom {l : List (Asked κ)} (h : s.Recounts l s')
    (hops : s.operations = []) : s'.ChronicledFrom s.cache l where
  chronicle := h.chronicle
  operations_eq := by simp [h.operations_eq, hops]

/-- Every run has its chronicle. -/
theorem exists_chronicle (setup : Setup κ) (steps : List (Step κ)) :
    ∃ l, ((start setup).runAll steps).ChronicledFrom (start setup).cache l := by
  obtain ⟨l, hl⟩ := piecewise_leaves.runAll (start setup) steps
  exact ⟨l, hl.chronicledFrom rfl⟩

/-! ## In good order -/

theorem Prepared.ready {op : Operation κ} {held : List ClientId} {grip : List ValueId}
    (h : s.Prepared op held grip) : (⟨s.cache, op⟩ : Asked κ).Ready where
  owned := h.owned
  determined := h.determined
  accepted := ⟨s.inFlight, h.kept, h.accepts⟩

end Session

theorem Cache.Trace.rests_of_nil {c c' : Cache κ} (h : c.Trace [] c') : c.Rests c' := by
  generalize hops : ([] : List (Operation κ)) = ops at h
  induction h with
  | start => exact .refl c
  | perform => simp at hops
  | forget _ _ ih => exact (ih hops).trans (rests_forget _ _)
  | @tearDown _ c' _ _ none_left next_eq ih =>
    refine (ih hops).trans ⟨next_eq, fun id e he => ?_, rfl, .inr ⟨rfl, rfl⟩⟩
    exact nomatch (none_left id).symm.trans he

namespace Session

variable {s s' : Session κ} {log : List (Incident κ)}

theorem Proceeds.recounts (h : s.Proceeds log s') :
    ∃ l, s.Recounts l s' ∧ ∀ x ∈ l, x.Ready := by
  induction h with
  | done s => exact ⟨[], ⟨.start, rfl⟩, by simp⟩
  -- changes in between leave the cache at rest
  | pass passes _ ih =>
    obtain ⟨l, hl, hready⟩ := ih
    exact ⟨l, ⟨(Cache.Chronicle.start.rest passes.trace.rests_of_nil).trans hl.chronicle,
      by rw [hl.operations_eq, passes.operations_eq]⟩, hready⟩
  -- an operation is one more line of the chronicle
  | operate prepared _ _ ih =>
    obtain ⟨l, hl, hready⟩ := ih
    refine ⟨_ :: l, ⟨(Cache.Chronicle.start.ask _).trans hl.chronicle, ?_⟩, ?_⟩
    · simp [hl.operations_eq, adopt]
    · exact List.forall_mem_cons.2 ⟨prepared.ready, hready⟩
  -- being told is no operation
  | tell _ _ heard _ ih =>
    obtain ⟨l, hl, hready⟩ := ih
    exact ⟨l, ⟨(Cache.Chronicle.start.rest heard.trace.rests_of_nil).trans hl.chronicle,
      by rw [hl.operations_eq, heard.operations_eq]⟩, hready⟩
  | answer _ _ _ ih => exact ih

/-- Where predicates look at keys alone, all that was asked for was in good order, and all is at the end. -/
theorem exists_chronicle_of_keyDetermined (setup : Setup κ) (steps : List (Step κ))
    (hsetup : setup.KeyDetermined) (hsteps : ∀ step ∈ steps, step.KeyDetermined) :
    ∃ l, ((start setup).runAll steps).ChronicledFrom (start setup).cache l ∧ ∀ x ∈ l, x.Ready := by
  obtain ⟨log, hlog⟩ := (atRest_start hsetup).unfolds_runAll steps hsteps
  obtain ⟨l, hl, hready⟩ := hlog.proceeds.recounts
  exact ⟨l, hl.chronicledFrom rfl, hready⟩

/-- What holds of every chronicle in which all was in order has held all along in a session. -/
theorem throughout_of_keyDetermined (setup : Setup κ) (steps : List (Step κ))
    (hsetup : setup.KeyDetermined) (hsteps : ∀ step ∈ steps, step.KeyDetermined) {l : List (Asked κ)}
    (hl : ((start setup).runAll steps).ChronicledFrom (start setup).cache l) (hready : ∀ x ∈ l, x.Ready)
    {Q : List (Asked κ) → Cache κ → Prop}
    (hQ : ∀ l c, (start setup).cache.Chronicle l c → (∀ x ∈ l, x.Ready) → c.Owned → Q l c) :
    Throughout Q l ((start setup).runAll steps).cache :=
  have howned := ((atRest_start hsetup).trace_runAll steps hsteps).1.consistent.owned
  hl.chronicle.throughout_of_ready hready howned hQ

end Session

end RefCache
