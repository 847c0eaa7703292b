import RefCache.Proofs.Chronicle.Checks
import RefCache.Proofs.Session.Chronicle

/-!
# Limits are asked for in time

A cache asks for new limits when it is made, and then whenever an operation that looks at the clock finds those in
effect expired. Nothing else asks for limits: over a run of a session, the polls are those of the operations in its
chronicle, and between operations neither the limits nor the time of the last check change
(`exists_timedChronicle`). So `reloads_in_time` holds of every run, whatever clock and limits each operation meets.
-/

namespace RefCache

universe u

variable {κ : Type u} [Key κ]

namespace Session

/-- The way from a session to a later one is in the chronicle, and so are all polls on it. -/
structure RecountsPolls (s : Session κ) (l : List (Asked κ)) (s' : Session κ) : Prop extends
    Recounts s l s' where
  keepsCheck : s.cache.KeepsCheck l s'.cache
  polls_eq : s'.polls = s.polls + (pollsOf l).length

/-- There is a chronicle of the way to a later session and of all polls on it. -/
def Polls (s s' : Session κ) : Prop :=
  ∃ l, s.RecountsPolls l s'

variable {s s' s'' : Session κ}

theorem Polls.of_rests (hrests : s.cache.Rests s'.cache) (hcheck : s'.cache.lastCheck = s.cache.lastCheck)
    (hops : s'.operations = s.operations) (hpolls : s'.polls = s.polls) : s.Polls s' :=
  ⟨[], ⟨.rest .start hrests, hops⟩, hcheck, hpolls⟩

theorem Polls.trans (h : s.Polls s') (h' : s'.Polls s'') : s.Polls s'' := by
  obtain ⟨l, hl⟩ := h
  obtain ⟨l', hl'⟩ := h'
  refine ⟨l ++ l', ⟨hl.chronicle.trans hl'.chronicle, ?_⟩, hl.keepsCheck.trans hl'.keepsCheck, ?_⟩
  · simp [hl'.operations_eq, hl.operations_eq]
  · rw [hl'.polls_eq, hl.polls_eq, pollsOf, pollsOf, pollsOf, List.filterMap_append, List.length_append,
      Nat.add_assoc]

/-! ## Letting entries go is no poll -/

theorem polls_dropUnlessHeld (s : Session κ) (id : EntryId) : (s.dropUnlessHeld id).polls = s.polls := by
  rcases s.dropUnlessHeld_cases id with ⟨heq, _⟩ | ⟨e, _, _, heq⟩
  · rw [heq]
  · rw [heq, polls_dropHandle]

theorem polls_foldl_dropUnlessHeld (ids : List EntryId) (s : Session κ) :
    (ids.foldl dropUnlessHeld s).polls = s.polls := by
  induction ids generalizing s with
  | nil => rfl
  | cons id rest ih => exact (ih _).trans (s.polls_dropUnlessHeld id)

theorem lastCheck_foldl_dropUnlessHeld (ids : List EntryId) (s : Session κ) :
    (ids.foldl dropUnlessHeld s).cache.lastCheck = s.cache.lastCheck := by
  rw [(drops_foldl s ids).cache_eq]

theorem polls_tearDownIfDeserted (s : Session κ) : s.tearDownIfDeserted.polls = s.polls := by
  unfold tearDownIfDeserted
  split
  · rfl
  · exact (polls_foldl_dropUnlessHeld _ _).trans (polls_foldl_dropUnlessHeld _ _)

theorem lastCheck_tearDownIfDeserted (s : Session κ) :
    s.tearDownIfDeserted.cache.lastCheck = s.cache.lastCheck := by
  unfold tearDownIfDeserted
  split
  · rfl
  · exact (lastCheck_foldl_dropUnlessHeld _ _).trans (lastCheck_foldl_dropUnlessHeld _ _)

/-- Nothing but operations asks for limits. -/
theorem piecewise_polls : Piecewise (Polls : Session κ → Session κ → Prop) where
  trans := Polls.trans
  books hcache hops hpolls := .of_rests (hcache ▸ .refl _) (hcache ▸ rfl) hops hpolls
  dropUnlessHeld s id := .of_rests (s.rests_dropUnlessHeld id) (lastCheck_foldl_dropUnlessHeld [id] s)
    (s.dropUnlessHeld_frame id).1.operations_eq (s.polls_dropUnlessHeld id)
  tearDownIfDeserted s := .of_rests s.rests_tearDownIfDeserted s.lastCheck_tearDownIfDeserted
    s.frame_tearDownIfDeserted.1.operations_eq s.polls_tearDownIfDeserted
  adopt s op := by
    refine ⟨[⟨s.cache, op⟩], ⟨.ask .start op, rfl⟩, ⟨rfl, rfl⟩, ?_⟩
    show s.polls + (⟨s.cache, op⟩ : Asked κ).polls = _
    rw [Asked.polls_eq_length]
    cases hpoll : (⟨s.cache, op⟩ : Asked κ).poll? <;> simp [pollsOf, hpoll]

/-- Every run of a session has its chronicle, with all polls in it but the first. -/
theorem exists_timedChronicle (setup : Setup κ) (steps : List (Step κ)) :
    ∃ l, ((start setup).runAll steps).ChronicledFrom (start setup).cache l ∧
      (start setup).cache.TimedChronicle l ((start setup).runAll steps).cache ∧
      ((start setup).runAll steps).polls = 1 + (pollsOf l).length := by
  obtain ⟨l, hl⟩ := piecewise_polls.runAll (start setup) steps
  exact ⟨l, hl.toRecounts.chronicledFrom rfl, ⟨hl.chronicle, hl.keepsCheck⟩, hl.polls_eq⟩

/-- Whatever a cache is asked for, and whatever clock and supplier it meets each time: it asks for new limits when
those in effect have expired, and works by what it was offered last. A session asks for no others. -/
theorem reloads_in_time :
    (∀ (policy : Policy κ) (w₀ : Surroundings) (l : List (Asked κ)) (c : Cache κ),
      (Cache.create policy w₀).cache.TimedChronicle l c → Cache.ReloadsInTime w₀ l c) ∧
    ∀ (setup : Setup κ) (steps : List (Step κ)), ∃ l,
      ((start setup).runAll steps).ChronicledFrom (start setup).cache l ∧
        Cache.ReloadsInTime ⟨setup.clock.now, setup.limits⟩ l ((start setup).runAll steps).cache ∧
        ((start setup).runAll steps).polls = 1 + (pollsOf l).length := by
  refine ⟨fun policy w₀ l c h => h.reloadsInTime (Cache.datesFrom_create policy w₀), fun setup steps => ?_⟩
  obtain ⟨l, hl, htimed, hpolls⟩ := exists_timedChronicle setup steps
  exact ⟨l, hl, htimed.reloadsInTime (cache_start setup ▸ Cache.datesFrom_create _ _), hpolls⟩

/-- The first limits stay in effect for two readings of the clock. -/
def hurried : Setup Nat where
  limits := { checkInterval := ⟨2⟩ }
  clock := .running 0

/-- The limits have expired when the first value is let go of, and again when it is let go of for the second time;
those polled then stay in effect for five readings. -/
def offeredMoreTime : List (Step Nat) :=
  [.request (.put 1 { tag := "a", size := 10 } none none), .offer { checkInterval := ⟨5⟩ },
    .request (.get 1 none), .request (.get 9 none)]

theorem reloads_in_time_offeredMoreTime :
    (∃ l, (start hurried).cache.TimedChronicle l ((start hurried).runAll offeredMoreTime).cache ∧
      Cache.ReloadsInTime ⟨⟨0⟩, hurried.limits⟩ l ((start hurried).runAll offeredMoreTime).cache ∧
      (pollsOf l).length = 2) ∧
      ((start hurried).runAll offeredMoreTime).cache.lastCheck = ⟨4⟩ ∧
      ((start hurried).runAll offeredMoreTime).cache.limits.checkInterval = ⟨5⟩ := by
  obtain ⟨l, _, htimed, hpolls⟩ := exists_timedChronicle hurried offeredMoreTime
  have htwo : ((start hurried).runAll offeredMoreTime).polls = 3 := by decide +kernel
  refine ⟨⟨l, htimed, ?_, by omega⟩, by decide +kernel, by decide +kernel⟩
  rw [cache_start] at htimed
  exact reloads_in_time.1 _ _ l _ htimed

end Session

end RefCache
