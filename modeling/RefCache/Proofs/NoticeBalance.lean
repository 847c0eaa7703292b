import RefCache.Proofs.Session.Histories

/-!
# Notices balance

Whatever observers do when they are told, an observer is told in turns that its entry has become
exclusive and that it is no longer so, and what it was told last is how things are
(`Session.NoticesBalance`). An operation that makes an entry leave the cache is the last one that its
observer is told about.
-/

namespace RefCache

universe u

variable {κ : Type u} [Key κ]

namespace Session

/-- What observers have been told fits the operations that have been performed, from the cache `c₀`
on. -/
structure NoticesBalance (c₀ : Cache κ) (s : Session κ) : Prop where
  /-- The flags about an entry are `true`, `false`, `true` and so on. -/
  alternate : ∀ id i (h : i < (flagsOf id s.told).length), (flagsOf id s.told)[i] = decide (i % 2 = 0)
  /-- As long as somebody shares the cache, an observer was told `true` last if and only if its entry is
  in a pool. -/
  last_iff : s.present = true ∨ s.clients.isEmpty = false → ∀ id,
    (flagsOf id s.told).getLast? = some true ↔ id ∈ s.cache.policy.ids ∧
      ∃ e, s.cache.entries.get? id = some e ∧ e.observer.isSome = true
  /-- When an operation makes an entry leave the cache, its observer is told what was reported before
  and what this operation reports, and nothing else. If the entry was exclusive before, or the operation
  makes it so, the last thing it is told is that it is no longer so. -/
  final : ∀ before op after, s.operations.reverse = before ++ op :: after →
    ∀ k id e, (c₀.applyAll before).cached.get? k = some id →
      (c₀.applyAll before).entries.get? id = some e → e.observer.isSome = true →
      (∀ k, ((c₀.applyAll before).apply op).cache.cached.get? k ≠ some id) →
        flagsOf id s.told = flagsOf id (c₀.reportsAll before)
            ++ flagsOf id ((c₀.applyAll before).apply op).notices ∧
          (id ∈ (c₀.applyAll before).policy.ids ∨
              flagsOf id ((c₀.applyAll before).apply op).notices ≠ [] →
            (flagsOf id ((c₀.applyAll before).apply op).notices).getLast? = some false)

variable {s s' m m' : Session κ} {log : List (Incident κ)} {id : EntryId} {e : Entry κ}

/-! ## What observers are told -/

/-- Of two states on the way, one is what has become of the other. -/
theorem Proceeds.comparable (h : s.Proceeds log s') {i j : Incident κ} (hi : i ∈ log) (hj : j ∈ log) :
    i.state.Outlives j.state ∨ j.state.Outlives i.state := by
  obtain ⟨before, after, rfl⟩ := List.append_of_mem hi
  obtain ⟨hbefore, hafter⟩ := h.split
  rcases List.mem_append.1 hj with hj | hj
  · exact .inr (hbefore.outlives_of_mem hj)
  · obtain ⟨l, l', hl⟩ := List.append_of_mem hj
    rw [hl] at hafter
    exact .inl hafter.split.1.outlives

/-- When somebody is told about an entry, the entry is there. -/
theorem Proceeds.exists_told (h : s.Proceeds log s') (hkept : s.KeepsInFlight) {i : Incident κ}
    (hi : i ∈ log) {d : Errand} (hd : i.what = .told d) :
    ∃ e, i.state.cache.entries.get? d.notice.entry = some e := by
  have hmem := (h.attends hi (.inl hd)).1 d.notice.entry List.mem_cons_self
  obtain ⟨before, after, rfl⟩ := List.append_of_mem hi
  exact h.split.1.keepsInFlight hkept _ hmem

/-- If an entry has an observer whenever a notice about it is delivered, all of them are told, and none
is if it has no observer. -/
theorem flagsOf_announcedOf {b : Bool} (h : ∀ i ∈ log, ∀ d, i.what = .told d → d.notice.entry = id →
    ∃ e, i.state.cache.entries.get? id = some e ∧ e.observer.isSome = b) :
    flagsOf id (announcedOf log) = if b then flagsOf id (deliveredOf log) else [] := by
  induction log with
  | nil => simp
  | cons i rest ih =>
    have hrest := ih fun j hj => h j (List.mem_cons_of_mem _ hj)
    obtain ⟨m, what⟩ := i
    cases what with
    | told d =>
      rw [announcedOf_told, deliveredOf_told, flagsOf_append, hrest, flagsOf_cons]
      -- an incident that tells of another entry adds nothing to its flags
      by_cases hid : d.notice.entry = id
      · obtain ⟨e, he, rfl⟩ := h _ List.mem_cons_self d rfl hid
        cases hobserver : e.observer <;> simp [announced, hid, he, hobserver, flagsOf_cons]
      · have hnone : flagsOf id (m.announced d.notice) = [] := by
          refine flagsOf_eq_nil fun n hn heq => hid ?_
          rw [announced] at hn
          split at hn
          · rw [← heq, List.mem_singleton.1 hn]
          · exact absurd hn List.not_mem_nil
        simp [hid, hnone]
    | _ => exact hrest

/-- What is told of an entry that is there at some time is all that is reported about it if it has an
observer, and nothing otherwise. -/
theorem Unfolds.flagsOf_told (h : s.Unfolds [] log s') (hkept : s.KeepsInFlight)
    (he : m.cache.entries.get? id = some e)
    (hcomparable : ∀ i ∈ log, i.state.Outlives m ∨ m.Outlives i.state) :
    flagsOf id (announcedOf log) = if e.observer.isSome then flagsOf id (reportedOf log) else [] := by
  have hdelivered := h.flagsOf_deliveredOf (fun _ hd => nomatch hd) id
  rw [List.map_nil, flagsOf_nil, List.nil_append] at hdelivered
  rw [← hdelivered]
  refine flagsOf_announcedOf fun i hi d hd hid => ?_
  obtain ⟨e', he'⟩ := h.proceeds.exists_told hkept hi hd
  rw [hid] at he'
  refine ⟨e', he', ?_⟩
  rcases hcomparable i hi with hlater | hlater
  · rw [hlater.observer_eq he' he]
  · rw [hlater.observer_eq he he']

/-- Observers are told all that is reported about their entries, or nothing. -/
theorem Unfolds.flagsOf_told_cases (h : s.Unfolds [] log s') (hkept : s.KeepsInFlight)
    (id : EntryId) : flagsOf id (announcedOf log) = [] ∨
      flagsOf id (announcedOf log) = flagsOf id (reportedOf log) := by
  by_cases hsome : ∃ i ∈ log, ∃ d, i.what = .told d ∧ d.notice.entry = id
  · obtain ⟨i, hi, d, hd, rfl⟩ := hsome
    obtain ⟨e, he⟩ := h.proceeds.exists_told hkept hi hd
    rw [h.flagsOf_told hkept he fun j hj => h.proceeds.comparable hj hi]
    split
    · exact .inr rfl
    · exact .inl rfl
  · have hnone : flagsOf id (announcedOf log) = if false then flagsOf id (deliveredOf log) else [] :=
      flagsOf_announcedOf fun i hi d hd hid => absurd ⟨i, hi, d, hd, hid⟩ hsome
    exact .inl hnone

/-! ## Entries that have left -/

/-- What is reported last about an entry that leaves is that it is no longer exclusive. -/
theorem Prepared.getLast?_of_left {op : Operation κ} {held : List ClientId} {grip : List ValueId}
    (h : m.Prepared op held grip) (hnot : ∀ k, (m.cache.apply op).cache.cached.get? k ≠ some id)
    (hpooled : id ∈ m.cache.policy.ids ∨ flagsOf id (m.cache.apply op).notices ≠ []) :
    (flagsOf id (m.cache.apply op).notices).getLast? = some false := by
  have hgone : id ∉ (m.cache.apply op).cache.policy.ids := by
    intro hmem
    obtain ⟨e, _, hget, _⟩ := (h.orderly.owned.mem_ids_iff id).1 hmem
    exact hnot e.key hget
  have htoggles := h.reports.toggles id
  rw [decide_eq_false hgone] at htoggles
  refine htoggles.getLast?_of_ne_nil ?_
  rcases hpooled with hid | hne
  · exact htoggles.ne_nil (by simp [hid])
  · exact hne

/-- Of an entry that an operation makes leave, its observer is told what was reported before and what this
operation reports. -/
theorem Unfolds.told_of_departed {before after : List (Incident κ)} {op : Operation κ}
    (h : s.Unfolds [] (before ++ ⟨m, .asked op⟩ :: after) s') (hkept : s.KeepsInFlight)
    (he : m.cache.entries.get? id = some e) (hobserver : e.observer.isSome = true)
    (hleft : (m.cache.apply op).cache.Departed id) :
    flagsOf id (announcedOf (before ++ ⟨m, .asked op⟩ :: after))
      = flagsOf id (reportedOf before) ++ flagsOf id (m.cache.apply op).notices := by
  have hmem : (⟨m, .asked op⟩ : Incident κ) ∈ before ++ ⟨m, .asked op⟩ :: after := by simp
  -- it has left for good
  have hnothing : flagsOf id (reportedOf after) = [] :=
    (h.proceeds.split.2.operated.flagsOf_reportedOf hleft).2
  rw [h.flagsOf_told hkept he fun i hi => h.proceeds.comparable hi hmem, if_pos hobserver]
  simp [hnothing]

theorem Unfolds.final (h : s.Unfolds [] log s') (hkept : s.KeepsInFlight)
    {ops ops' : List (Operation κ)} {op : Operation κ} (hasked : askedOf log = ops ++ op :: ops')
    {k : κ} (hcached : (s.cache.applyAll ops).cached.get? k = some id)
    (he : (s.cache.applyAll ops).entries.get? id = some e) (hobserver : e.observer.isSome = true)
    (hnot : ∀ k, ((s.cache.applyAll ops).apply op).cache.cached.get? k ≠ some id) :
    flagsOf id (announcedOf log) = flagsOf id (s.cache.reportsAll ops)
        ++ flagsOf id ((s.cache.applyAll ops).apply op).notices ∧
      (id ∈ (s.cache.applyAll ops).policy.ids ∨
          flagsOf id ((s.cache.applyAll ops).apply op).notices ≠ [] →
        (flagsOf id ((s.cache.applyAll ops).apply op).notices).getLast? = some false) := by
  obtain ⟨before, m, after, rfl, rfl⟩ := exists_asked hasked
  have hproceeds := h.proceeds
  have hmem : (⟨m, .asked op⟩ : Incident κ) ∈ before ++ ⟨m, .asked op⟩ :: after := by simp
  obtain ⟨hallowed, _, _, hprepared⟩ := hproceeds.prepared hmem rfl
  have hbefore := hproceeds.split.1
  -- the state of that time is the one that the operations before it lead to
  have hreplay := hbefore.follows.replay.resolve_left (hprepared.not_dissolved hallowed)
  have happly := hprepared.replayed hreplay
  rw [← hreplay.cached_eq] at hcached
  simp only [← happly.cache.cached_eq] at hnot
  obtain ⟨e', he', _⟩ := hprepared.owned.mem_cached_of_get? hcached
  obtain rfl : e' = e := Option.some.inj ((hreplay.entries.kept id e' he').symm.trans he)
  -- after the operation no key leads to the entry, though its number has been given out
  have hleft : (m.cache.apply op).cache.Departed id := by
    refine hprepared.orderly.owned.departed_of_not_cached
      (Nat.lt_of_lt_of_le (Register.lt_next_of_get? _ he') hprepared.evolves.next_le) ?_
    rintro x hx rfl
    exact hnot x.1 ((SizedMap.get?_eq_some_iff _ _ _).2 ⟨x.2.size, hx⟩)
  rw [h.told_of_departed hkept he' hobserver hleft, ← happly.notices_eq, hbefore.follows.reported_eq,
    ← hreplay.policy_eq]
  exact ⟨rfl, hprepared.getLast?_of_left hnot⟩

/-! ## Every session -/

/-- What an observer was told last is how things are. -/
theorem Unfolds.last_iff (h : s.Unfolds [] log s') (hkept : s.KeepsInFlight)
    (hempty : s.cache.policy.ids = []) (hend : s'.AtRest)
    (hshared : s'.present = true ∨ s'.clients.isEmpty = false) (id : EntryId) :
    (flagsOf id (announcedOf log)).getLast? = some true ↔ id ∈ s'.cache.policy.ids ∧
      ∃ e, s'.cache.entries.get? id = some e ∧ e.observer.isSome = true := by
  -- the notices of the entry alternate, as they are reported
  obtain ⟨b, htoggles, hb⟩ := h.proceeds.follows.toggles id
  rw [hb.resolve_left (hend.not_dissolved hshared), hempty] at htoggles
  have htold := fun e (he : s'.cache.entries.get? id = some e) =>
    h.flagsOf_told hkept he fun i hi => .inl (h.proceeds.outlives_of_mem hi)
  constructor
  · -- something was told, so all that is reported was told, and the entry has an observer
    intro htrue
    have hall := (h.flagsOf_told_cases hkept id).resolve_left fun hnone => by simp [hnone] at htrue
    have hlast := htoggles.getLast?_getD
    rw [← hall, htrue, Option.getD_some, eq_comm, decide_eq_true_iff] at hlast
    obtain ⟨e, he, _⟩ := (hend.consistent.owned.mem_ids_iff id).1 hlast
    refine ⟨hlast, e, he, ?_⟩
    cases hobserver : e.observer.isSome with
    | true => rfl
    | false => simp [htold e he, hobserver] at htrue
  · rintro ⟨hpooled, e, he, hobserver⟩
    rw [htold e he, if_pos hobserver]
    rw [decide_eq_true hpooled] at htoggles
    exact htoggles.getLast?_of_ne_nil (htoggles.ne_nil (by simp))

/-- In every session observers are told in turns, and what they were told last is how things are. -/
theorem notices_balance (setup : Setup κ) (steps : List (Step κ)) (hsetup : setup.KeyDetermined)
    (hsteps : ∀ step ∈ steps, step.KeyDetermined) :
    ((start setup).runAll steps).NoticesBalance (start setup).cache := by
  have hstart := atRest_start hsetup
  have hkept := hstart.keepsInFlight
  have hend := (hstart.trace_runAll steps hsteps).1
  obtain ⟨log, hlog⟩ := hstart.unfolds_runAll steps hsteps
  have hfollows := hlog.proceeds.follows
  generalize (start setup).runAll steps = s at *
  have htold : s.told = announcedOf log := hfollows.told_eq
  have hasked : s.operations.reverse = askedOf log := by
    -- what was told and what was asked is read off the log of the run
    simp [hfollows.operations_eq, start]
  constructor
  · intro id i hi
    obtain ⟨b, htoggles, _⟩ := hfollows.toggles id
    rw [ids_start] at htoggles
    rw [htold] at hi
    simp only [htold]
    rcases hlog.flagsOf_told_cases hkept id with hnone | hall
    · simp [hnone] at hi
    · rw [← hall] at htoggles
      simpa using htoggles.getElem i hi
  · intro hshared id
    rw [htold]
    exact hlog.last_iff hkept (ids_start setup) hend hshared id
  · intro ops op ops' hops k id e hcached he hobserver hnot
    rw [hasked] at hops
    rw [htold]
    exact hlog.final hkept hops hcached he hobserver hnot

/-- Whoever is told that the entry under the first key is exclusive asks for it again. -/
def asksAgain : Setup Nat where
  defaultObserver := some "o"
  reactions := [{ key := 1, exclusive := true, requests := [.get 1 (some "r")] }]

/-- Two values come in, and the first one is removed when its reference has been closed. -/
def removedAtLast : List (Step Nat) :=
  [.request (.put 1 { tag := "a", size := 10 } none none),
    .request (.put 2 { tag := "b", size := 20 } none none), .request (.closeRef "r"),
    .request (.removeAll (.ofKey fun k => k = 1))]

theorem notices_balance_removedAtLast :
    ((start asksAgain).runAll removedAtLast).NoticesBalance (start asksAgain).cache ∧
      flagsOf 0 ((start asksAgain).runAll removedAtLast).told = [true, false, true, false] ∧
      flagsOf 1 ((start asksAgain).runAll removedAtLast).told = [true] ∧
      ((start asksAgain).runAll removedAtLast).cache.policy.ids = [1] := by
  refine ⟨notices_balance asksAgain removedAtLast (fun r hr q hq => ?_) fun step hstep => ?_,
    by decide +kernel, by decide +kernel, by decide +kernel⟩
  · rw [asksAgain, List.mem_singleton] at hr
    subst hr
    rw [List.mem_singleton.1 hq]
    trivial
  · simp only [removedAtLast, List.mem_cons, List.not_mem_nil, or_false] at hstep
    rcases hstep with rfl | rfl | rfl | rfl
    · trivial
    · trivial
    · trivial
    · exact Predicate.keyDetermined_ofKey _

end Session

end RefCache
