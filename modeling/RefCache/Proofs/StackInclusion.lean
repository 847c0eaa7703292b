import Mathlib.Data.List.Infix
import RefCache.Proofs.Stack.Requests

/-!
# A longer queue never loses a hit

Two sessions go through the same steps. Their caches keep exclusive entries in a single queue, the one as many
as `n`, the other one as many as `m`, which is no less, and nothing else is bounded. Then the longer queue holds
all that the shorter one holds, in the same order, whatever hits and misses the two have had on the way, and so
the cache with the longer queue answers all that the other one answers (`Session.Includes`).

* `Beside.run`, `Beside.runAll`: sessions that are side by side stay so
* `longer_queue_includes`: at every moment of every run of modest steps
-/

namespace RefCache

universe u

variable {κ : Type u}

/-- Something modest is requested, or time passes. -/
def Step.Modest : Step κ → Prop
  | .request r => r.Modest
  | .advance _ => True
  | _ => False

theorem Step.Modest.keyDetermined {step : Step κ} (h : step.Modest) : step.KeyDetermined := by
  cases step with
  | request r =>
    cases r with
    | removeAll p => exact h
    | _ => trivial
  | _ => trivial

/-- The session, but for a single queue with room for so many entries, no other bounds and observers that do not
react. -/
def Setup.queueing (setup : Setup κ) (maxQueueEntries : Nat) : Setup κ :=
  { setup with
    tuning := none
    limits := .boundingQueue maxQueueEntries setup.limits.checkInterval
    reactions := [] }

variable [Key κ]

namespace Session

/-- All that is cached in the first session is cached in the second one: the same entries are in use, and the
queue of the second session holds what the queue of the first one holds, in the same order. -/
structure Includes (s s' : Session κ) : Prop where
  in_use : s'.cache.busy.Perm s.cache.busy
  queued : s.cache.policy.items.Sublist s'.cache.policy.items
  cached : ∀ k, s.cache.contains k = true → s'.cache.contains k = true

variable {n m : Nat} {s s' : Session κ}

theorem Beside.includes (h : Beside n m s s' [] [] []) : s.Includes s' where
  in_use := h.stacked.busy_perm
  queued := h.stacked.queue.sublist
  cached := fun _ hk => h.stacked.contains h.consistent.owned h.consistent'.owned hk

/-- Sessions begin side by side. -/
theorem beside_start (setup : Setup κ) (hnm : n ≤ m) :
    Beside n m (start (setup.queueing n)) (start (setup.queueing m)) [] [] [] := by
  have hmodest : ∀ n, (start (setup.queueing n)).Modest n := fun n =>
    { present := rfl
      silent := rfl
      offered := ⟨_, rfl⟩
      queues := ⟨rfl, ⟨_, rfl⟩, Nat.zero_le n⟩
      single := fun _ _ h => nomatch h
      sized := fun _ _ h => nomatch h }
  have hrest : ∀ n, (start (setup.queueing n)).AtRest := fun n => atRest_start fun _ hr => nomatch hr
  -- two empty caches hold the same
  exact
    { modest := hmodest n
      modest' := hmodest m
      stacked :=
        { queue := ⟨.slnil, by show 0 + n ≤ 0 + m; omega⟩
          next_eq := rfl
          clients_eq := fun _ => rfl
          held_iff := fun _ _ => .rfl }
      alike := ⟨fun _ => rfl, fun _ => rfl, rfl, rfl⟩
      consistent := (hrest n).consistent
      consistent' := (hrest m).consistent
      accountable := ⟨Nat.zero_le _, Nat.le_refl 0, Nat.zero_le _⟩ }

/-- As long as no observer reacts, no request is nested in another one. -/
theorem run_request_of_silent (h : s.reactions = []) (r : Request κ) :
    s.run (.request r) = performNested 0 s r := by
  unfold run perform
  rw [h]
  rfl

/-- A modest step keeps the sessions side by side. -/
theorem Beside.run (h : Beside n m s s' [] [] []) {step : Step κ} (hstep : step.Modest)
    (hroom : s'.cache.count < unlimited)
    (hwritten : (s'.run step).1.cache.counters.bytesWritten.number ≤ unlimited) :
    Beside n m (s.run step).1 (s'.run step).1 [] [] [] := by
  cases step with
  | request r =>
    rw [run_request_of_silent h.modest'.silent] at hwritten ⊢
    rw [run_request_of_silent h.modest.silent]
    exact h.performWith (fun _ _ _ _ _ h => h.settles) hstep hroom hwritten
  -- the time that passes is no part of what the sessions compare
  | advance time =>
    have hclock : ∀ s : Session κ, s.Subsides (s.run (.advance time)).1 := fun s =>
      { Subsides.refl s with }
    have hbooks : ∀ s : Session κ, s.Balanced s.cache.entries [] [] →
        (s.run (.advance time)).1.Balanced s.cache.entries [] [] :=
      fun _ h => h.congr rfl rfl rfl rfl rfl fun _ => rfl
    exact h.subside (hclock s) (hclock s')
      (h.consistent.rebook (hbooks s h.consistent.balanced) ⟨rfl, rfl, rfl, rfl, rfl⟩ rfl)
      (h.consistent'.rebook (hbooks s' h.consistent'.balanced) ⟨rfl, rfl, rfl, rfl, rfl⟩ rfl)
  | _ => exact hstep.elim

/-- Many modest steps keep the sessions side by side, as long as all can be counted and measured. -/
theorem Beside.runAll (steps : List (Step κ)) (h : Beside n m s s' [] [] [])
    (hsteps : ∀ step ∈ steps, step.Modest)
    (hroom : ∀ before, before <+: steps → (s'.runAll before).cache.count < unlimited)
    (hwritten : ∀ before, before <+: steps →
      (s'.runAll before).cache.counters.bytesWritten.number ≤ unlimited) :
    Beside n m (s.runAll steps) (s'.runAll steps) [] [] [] := by
  induction steps generalizing s s' with
  | nil => exact h
  | cons step rest ih =>
    have hfirst := h.run (hsteps step List.mem_cons_self) (hroom [] List.nil_prefix)
      (hwritten [step] (List.prefix_append [step] rest))
    refine ih hfirst (fun step hstep => hsteps step (List.mem_cons_of_mem _ hstep)) ?_ ?_
    · intro before hbefore
      exact hroom (step :: before) (List.cons_prefix_cons.2 ⟨rfl, hbefore⟩)
    · intro before hbefore
      exact hwritten (step :: before) (List.cons_prefix_cons.2 ⟨rfl, hbefore⟩)

/-- Whatever modest steps are made, at every moment the session with the longer queue holds all that the one with
the shorter queue holds. All values that were cached can be measured in a machine word, and what is cached can be
counted in one, as whatever is kept in memory can. Without the latter the number of entries would be bounded after
all, and where the entries in use leave next to no room, both queues would have the same. -/
theorem longer_queue_includes (setup : Setup κ) (hnm : n ≤ m) (steps : List (Step κ))
    (hsteps : ∀ step ∈ steps, step.Modest)
    (hcounted : ∀ before, before <+: steps →
      ((start (setup.queueing m)).runAll before).cache.count < unlimited)
    (hmeasured : ((start (setup.queueing m)).runAll steps).cache.counters.bytesWritten.number ≤ unlimited) :
    ∀ before, before <+: steps →
      ((start (setup.queueing n)).runAll before).Includes ((start (setup.queueing m)).runAll before) := by
  -- the run goes on from each moment, so each part of it stays within the bounds of the whole
  intro before hbefore
  have hwritten : ∀ first, first <+: steps →
      ((start (setup.queueing m)).runAll first).cache.counters.bytesWritten.number ≤ unlimited := by
    intro first hfirst
    obtain ⟨later, rfl⟩ := hfirst
    have hrest : (start (setup.queueing m)).AtRest := atRest_start fun _ hr => nomatch hr
    have hthen := (hrest.trace_runAll first fun step hstep =>
      (hsteps step (List.mem_append_left _ hstep)).keyDetermined).1
    obtain ⟨_, _, htrace⟩ := hthen.trace_runAll later fun step hstep =>
      (hsteps step (List.mem_append_right _ hstep)).keyDetermined
    -- what was written stays written
    refine Nat.le_trans (htrace.written_le hthen.consistent.owned) ?_
    rw [runAll, runAll, ← List.foldl_append]
    exact hmeasured
  exact ((beside_start setup hnm).runAll before (fun step hstep => hsteps step (hbefore.subset hstep))
    (fun first hfirst => hcounted first (hfirst.trans hbefore))
    (fun first hfirst => hwritten first (hfirst.trans hbefore))).includes

/-- Observers listen, and the clock runs. -/
def listening : Setup Nat where
  defaultObserver := some "listener"
  clock := .manual 0

/-- The queue with room for one entry has lost the first value by the time it is asked for, the one with room for
two has not; the reference to the third value is held for a while. -/
def hitInOne : List (Step Nat) :=
  [.request (.put 1 { tag := "a", size := 10 } none none),
    .request (.put 2 { tag := "b", size := 20 } none none),
    .request (.get 1 none),
    .request (.put 3 { tag := "c", size := 30 } none (some "held")),
    .advance (.ofSeconds 5),
    .request (.probe 2),
    .request (.reuse 9 none),
    .request (.closeRef "held"),
    .request (.removeAll (.ofKey fun k => k = 2)),
    .request (.get 1 none)]

theorem longer_queue_includes_hitInOne :
    (∀ before, before <+: hitInOne →
      ((start (listening.queueing 1)).runAll before).Includes ((start (listening.queueing 2)).runAll before)) ∧
      ((start (listening.queueing 1)).runAll hitInOne).cache.cached.keys = [3] ∧
      ((start (listening.queueing 2)).runAll hitInOne).cache.cached.keys = [3] ∧
      ((start (listening.queueing 1)).runAll (hitInOne.take 6)).cache.policy.items.map Prod.fst = [2] ∧
      ((start (listening.queueing 2)).runAll (hitInOne.take 6)).cache.policy.items.map Prod.fst = [1, 2] := by
  have hcounted : ∀ before ∈ hitInOne.inits,
      ((start (listening.queueing 2)).runAll before).cache.count < unlimited := by decide +kernel
  refine ⟨longer_queue_includes listening (by decide) hitInOne (fun step hstep => ?_)
    (fun before hbefore => hcounted before ((List.mem_inits _ _).2 hbefore)) (by decide +kernel),
    by decide +kernel, by decide +kernel, by decide +kernel, by decide +kernel⟩
  simp only [hitInOne, List.mem_cons, List.not_mem_nil, or_false] at hstep
  rcases hstep with rfl | rfl | rfl | rfl | rfl | rfl | rfl | rfl | rfl | rfl
  case inr.inr.inr.inr.inr.inr.inr.inr.inl => exact Predicate.keyDetermined_ofKey _
  all_goals trivial

end Session

end RefCache
