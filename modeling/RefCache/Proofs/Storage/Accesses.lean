import RefCache.Proofs.Storage.AnyOrder
import RefCache.Proofs.Storage.Publication

/-!
# Evicting by last access

A `Moment` is a request of a storage in memory with what the clock shows then. Over a run of moments, a resource is accessed when it is committed, read or
touched, and not when somebody looks whether it is there (`accessesOfAll`). A resource carries the time of its
last access (`Dated`), so the order by age is the order of last accesses, and `evicts_least_recent` says what
an eviction at the end of a run removes and what it keeps.
-/

namespace RefCache

/-! ## Last accesses -/

/-- An access to the resource of an id. -/
structure Access where
  id : String
  time : Duration
deriving DecidableEq

/-- The last access to an id was at this time, and these accesses to others are since. -/
structure LastAccess (accesses : List Access) (id : String) (time : Duration) (since : List Access) : Prop where
  suffix : ⟨id, time⟩ :: since <:+ accesses
  others : ∀ access ∈ since, access.id ≠ id

namespace LastAccess

variable {accesses since since' : List Access} {id id' : String} {time time' : Duration}

theorem of_last (accesses : List Access) (id : String) (time : Duration) :
    LastAccess (accesses ++ [⟨id, time⟩]) id time [] :=
  ⟨List.suffix_append _ _, fun _ h => absurd h List.not_mem_nil⟩

theorem append (h : LastAccess accesses id time since) {more : List Access}
    (hmore : ∀ access ∈ more, access.id ≠ id) : LastAccess (accesses ++ more) id time (since ++ more) where
  suffix := by
    obtain ⟨before, hbefore⟩ := h.suffix
    exact ⟨before, by rw [← hbefore, List.append_assoc, List.cons_append]⟩
  others access haccess := (List.mem_append.1 haccess).elim (h.others access) (hmore access)

/-- Under a clock that never goes back, an access is not later than one that has more accesses behind it. -/
theorem le_of_longer (h : LastAccess accesses id time since) (h' : LastAccess accesses id' time' since')
    (hchronological : accesses.Pairwise fun a b => a.time ≤ b.time) (hlonger : since'.length < since.length) :
    time ≤ time' := by
  -- of two ends of the accesses, the shorter one is an end of the longer
  have hlater : ⟨id', time'⟩ :: since' <:+ since := by
    have hsince := (List.suffix_cons _ _).trans h.suffix
    exact List.suffix_of_suffix_length_le h'.suffix hsince hlonger
  have hpairs := List.pairwise_cons.1 (hchronological.sublist h.suffix.sublist)
  exact hpairs.1 _ (hlater.mem List.mem_cons_self)

end LastAccess

/-! ## Runs -/

/-- A request, and what the clock shows at the time. -/
structure Moment where
  time : Duration
  request : StorageRequest

/-- Whether there are data in an outcome. -/
def StorageOutcome.hasData : StorageOutcome → Bool
  | .data (some _) => true
  | _ => false

/-- The id of the resource that a request has accessed; a commit accesses the one that its writer writes. -/
def StorageRequest.accessed? (writing? : Option String) (outcome : StorageOutcome) :
    StorageRequest → Option String
  | .commit _ => if outcome.hasData then writing? else none
  | .read id => if outcome.hasData then some id else none
  | .touch id => if outcome = .truth true then some id else none
  | _ => none

namespace StorageSession

/-- The session when its clock shows a time. -/
def atTime (s : StorageSession) (time : Duration) : StorageSession :=
  { s with clock := .running time.nanos }

/-- The session after a moment. -/
def performAt (s : StorageSession) (m : Moment) : StorageSession :=
  ((s.atTime m.time).perform m.request).1

/-- The session after several moments. -/
def performAllAt (s : StorageSession) (moments : List Moment) : StorageSession :=
  moments.foldl performAt s

/-- What is accessed at a moment. -/
def accessesAt (s : StorageSession) (m : Moment) : List Access :=
  ((m.request.accessed? (s.target? m.request) ((s.atTime m.time).perform m.request).2).map
    fun id => ⟨id, m.time⟩).toList

/-- What is accessed at several moments, the first of which meets the session `s`. -/
def accessesOfAll (s : StorageSession) : List Moment → List Access
  | [] => []
  | m :: rest => s.accessesAt m ++ (s.performAt m).accessesOfAll rest

/-- Every resource carries the time of its last access. -/
def Dated (s : StorageSession) (accesses : List Access) : Prop :=
  ∀ (id : String) r, s.storage.committed[id]? = some r → ∃ since, LastAccess accesses id r.timestamp since

variable {s s' : StorageSession} {accesses : List Access}

/-- Resources that go away make no difference. -/
theorem Dated.of_subset (h : s.Dated accesses)
    (hsubset : ∀ (id : String) r, s'.storage.committed[id]? = some r → s.storage.committed[id]? = some r) :
    s'.Dated (accesses ++ []) := by
  rw [List.append_nil]
  exact fun id r hr => h id r (hsubset id r hr)

theorem Dated.of_eq (h : s.Dated accesses) (heq : s'.storage.committed = s.storage.committed) :
    s'.Dated (accesses ++ []) :=
  h.of_subset fun _ _ hr => heq ▸ hr

/-- A resource that is accessed is dated anew. -/
theorem Dated.access (h : s.Dated accesses) {id : String} (data : Bytes) {time : Duration}
    (heq : s'.storage.committed = s.storage.committed.insert id ⟨data, time⟩) :
    s'.Dated (accesses ++ [⟨id, time⟩]) := by
  intro other r hr
  rw [heq, Std.TreeMap.getElem?_insert] at hr
  by_cases hid : id = other
  · subst hid
    -- nothing has been accessed since
    simp only [Std.compare_self, if_true, Option.some.injEq] at hr
    exact ⟨[], hr ▸ .of_last accesses id time⟩
  · simp only [Std.LawfulEqCmp.compare_eq_iff_eq, hid, if_false] at hr
    obtain ⟨since, hlast⟩ := h other r hr
    exact ⟨_, hlast.append (List.forall_mem_singleton.2 hid)⟩

/-! ## The dates keep up with the accesses -/

/-- Evicting and removing only take resources away. -/
theorem committed_of_without {storage : HeapStorage} (ids : List String) {id : String} {r : Resource}
    (h : (storage.without ids).committed[id]? = some r) : storage.committed[id]? = some r := by
  rw [HeapStorage.committed_without] at h
  split at h
  · exact nomatch h
  · exact h

/-- What reads a resource dates it, if it is there. -/
theorem Dated.read (h : s.Dated accesses) {time : Duration} {id : String}
    (heq : s'.storage = (s.storage.read time id).2) :
    s'.Dated (accesses ++ if (s.storage.dataAt id).isSome then [⟨id, time⟩] else []) := by
  unfold HeapStorage.read at heq
  cases hr : s.storage.committed[id]? with
  | none =>
    rw [HeapStorage.dataAt, hr]
    rw [hr] at heq
    exact h.of_eq (by rw [heq])
  | some r =>
    rw [HeapStorage.dataAt, hr]
    rw [hr] at heq
    exact h.access r.data (by rw [heq])

theorem Dated.commit (h : s.Dated accesses) (time : Duration) (name : String) :
    ((s.atTime time).perform (.commit name)).1.Dated
      (accesses ++ s.accessesAt { time := time, request := .commit name }) := by
  rw [accessesAt]
  rcases (s.atTime time).perform_commit name with
    ⟨w, buffer, hw, _, _, heq⟩ | ⟨_, outcome, hfailed, heq, _⟩
  · -- a commit that succeeds dates its id, and one that fails leaves the dates alone
    have htarget : s.target? (.commit name) = some w.id := congrArg (Option.map Writer.id) hw
    dsimp only
    rw [heq, htarget]
    exact h.access _ rfl
  · have hnone : outcome.hasData = false := by
      unfold StorageOutcome.hasData
      split
      · exact absurd rfl (hfailed _)
      · rfl
    dsimp only
    rw [heq, StorageRequest.accessed?, hnone]
    exact h.of_eq rfl

theorem faults_performAt (s : StorageSession) (m : Moment) : (s.performAt m).faults = s.faults :=
  (s.atTime m.time).faults_perform m.request

/-- At every moment, the resources are dated by the accesses up to it. -/
theorem Dated.performAt (h : s.Dated accesses) (hfaults : s.faults = {}) (m : Moment) :
    (s.performAt m).Dated (accesses ++ s.accessesAt m) := by
  obtain ⟨time, request⟩ := m
  -- commits, reads and touches date a resource; all other requests leave the resources or take some away
  have hkept : ∀ {r : StorageRequest}, r.Unpublished →
      ((s.atTime time).perform r).1.Dated (accesses ++ []) := fun hr => h.of_eq (committed_perform hr)
  cases request with
  | insert id name => exact hkept (.insert id name)
  | write name data => exact hkept (.write name data)
  | cleanUp name => exact hkept (.cleanUp name)
  | purge => exact hkept .purge
  | commit name => exact h.commit time name
  -- a read or a touch is an access exactly when the id has data
  | read id =>
    have haccesses : s.accessesAt ⟨time, .read id⟩
        = if (s.storage.dataAt id).isSome then [⟨id, time⟩] else [] := by
      rw [accessesAt]
      dsimp only
      rw [outcome_read, StorageRequest.accessed?]
      cases hdata : s.storage.dataAt id <;> simp [StorageOutcome.hasData, atTime, hdata]
    rw [haccesses]
    exact h.read rfl
  | touch id =>
    have houtcome : ((s.atTime time).perform (.touch id)).2 = .truth (s.storage.dataAt id).isSome :=
      congrArg (fun data : Option Bytes => StorageOutcome.truth data.isSome) (s.storage.read_fst time id)
    have haccesses : s.accessesAt ⟨time, .touch id⟩
        = if (s.storage.dataAt id).isSome then [⟨id, time⟩] else [] := by
      rw [accessesAt]
      dsimp only
      rw [houtcome, StorageRequest.accessed?]
      cases s.storage.dataAt id <;> simp
    rw [haccesses]
    exact h.read rfl
  -- removals only take resources away, and the dates of the others stay
  | remove id =>
    have heq := perform_remove_of_faultless (s := s.atTime time) hfaults id
    refine h.of_subset fun other r hr => committed_of_without [id] ?_
    exact (congrArg (fun p => p.1.storage.committed[other]?) heq).symm.trans hr
  | evict target order =>
    obtain ⟨_, _, heq⟩ := perform_evict_of_faultless (s := s.atTime time) hfaults target order
    refine h.of_subset fun id r hr => committed_of_without (s.storage.evictees order target) ?_
    exact (congrArg (fun p => p.1.storage.committed[id]?) heq).symm.trans hr
  | clear => exact h.of_subset fun id r hr => nomatch (Std.TreeMap.getElem?_emptyc.symm.trans hr)
  | advance _ => exact h.of_eq rfl
  | dropWriter _ => exact h.of_eq rfl
  | contains _ => exact h.of_eq rfl

/-- After any moments, the resources are dated by all accesses. -/
theorem Dated.performAllAt (h : s.Dated accesses) (hfaults : s.faults = {}) (moments : List Moment) :
    (s.performAllAt moments).Dated (accesses ++ s.accessesOfAll moments) := by
  induction moments generalizing s accesses with
  | nil => rwa [accessesOfAll, List.append_nil]
  | cons m rest ih =>
    rw [accessesOfAll, ← List.append_assoc]
    exact ih (h.performAt hfaults m) ((s.faults_performAt m).trans hfaults)

/-- An access happens at the time of a moment. -/
theorem exists_moment_of_access {moments : List Moment} {access : Access}
    (h : access ∈ s.accessesOfAll moments) : ∃ m ∈ moments, access.time = m.time := by
  induction moments generalizing s with
  | nil => exact absurd h List.not_mem_nil
  | cons m rest ih =>
    rcases List.mem_append.1 h with h | h
    · obtain ⟨id, _, rfl⟩ := Option.map_eq_some_iff.1 (Option.mem_toList.1 h)
      exact ⟨m, List.mem_cons_self, rfl⟩
    · obtain ⟨m', hm', htime⟩ := ih h
      exact ⟨m', List.mem_cons_of_mem _ hm', htime⟩

/-- Under a clock that never goes back, the accesses are in order of their times. -/
theorem chronological {moments : List Moment} (h : moments.Pairwise fun m m' => m.time ≤ m'.time) :
    (s.accessesOfAll moments).Pairwise fun a b => a.time ≤ b.time := by
  induction moments generalizing s with
  | nil => exact .nil
  | cons m rest ih =>
    obtain ⟨hfirst, hrest⟩ := List.pairwise_cons.1 h
    refine List.pairwise_append.2 ⟨?_, ih hrest, fun a ha b hb => ?_⟩
    · -- there is at most one access at a moment
      unfold accessesAt
      cases m.request.accessed? (s.target? m.request) ((s.atTime m.time).perform m.request).2 <;> simp
    · obtain ⟨id, _, rfl⟩ := Option.map_eq_some_iff.1 (Option.mem_toList.1 ha)
      obtain ⟨m', hm', htime⟩ := exists_moment_of_access hb
      exact htime ▸ hfirst m' hm'

/-! ## Evicting at the end of a run -/

/-- What an eviction down to `target` does to a storage with these accesses behind it: it removes the resources
`removed`, in this order, and leaves the storage `s'`. -/
structure EvictsLeastRecent (order : ListingOrder) (s : HeapStorage) (accesses : List Access)
    (target : Nat) (removed : List Listed) (s' : HeapStorage) : Prop where
  /-- It tells by how much the storage has become smaller. -/
  freed : ∃ eviction, (HeapStorage.storage order).evictOldest s target = (.ok eviction, s') ∧
    (HeapStorage.storage order).journaled.evictOldest (s, []) target
      = (.ok eviction, s', removed.map HeapStorage.removal) ∧
    (eviction.map Eviction.freed).getD 0 + s'.size = s.size
  fits : s'.size ≤ target
  /-- Without the last removal there would still be too much. -/
  just_enough : ∀ e, removed.getLast? = some e → target < s'.size + e.size
  removed_eq : ∀ e ∈ removed, s'.committed[e.id]? = none ∧
    ∃ r, s.committed[e.id]? = some r ∧ r.data.length = e.size
  kept_eq : ∀ id : String, (∀ e ∈ removed, e.id ≠ id) → s'.committed[id]? = s.committed[id]?
  /-- No resource that is kept was last accessed at an earlier time than one that is removed; if its last access
  came first nevertheless, then at the same time. -/
  least_recent : ∀ e ∈ removed, ∀ (id : String) (r : Resource), s'.committed[id]? = some r →
    ∃ time since since', LastAccess accesses e.id time since ∧ LastAccess accesses id r.timestamp since' ∧
      time ≤ r.timestamp ∧ (since.length < since'.length → r.timestamp = time)
  others_eq : s' = { s with committed := s'.committed }

theorem without_eq (s : HeapStorage) (ids : List String) :
    s.without ids = { s with committed := (s.without ids).committed } := by
  unfold HeapStorage.without
  induction ids generalizing s with
  | nil => rfl
  | cons id rest ih =>
    have hremove : (s.remove id).2 = { s with committed := (s.remove id).2.committed } := by
      unfold HeapStorage.remove
      split <;> rfl
    rw [List.foldl_cons, ih, hremove]

/-- In a storage that is dated, an eviction takes the resources by their last accesses. -/
theorem exists_evictsLeastRecent (hdated : s.Dated accesses)
    (hchronological : accesses.Pairwise fun a b => a.time ≤ b.time)
    (order : ListingOrder) (target : Nat) :
    ∃ removed s', EvictsLeastRecent order s.storage accesses target removed s' := by
  obtain ⟨removed, kept, hevicts⟩ := HeapStorage.exists_evictsInOrder order s.storage target
  have hkept := HeapStorage.listing_without hevicts.perm
  have hsize := totalOf_perm Listed.size hkept
  rw [← HeapStorage.size_eq] at hsize
  have hbefore := totalOf_perm Listed.size hevicts.perm
  rw [← HeapStorage.size_eq, totalOf_append] at hbefore
  obtain ⟨eviction, hasked, hplain, hfreed⟩ := hevicts.evicts
  -- what is removed was listed with its time and its size
  have hfound : ∀ e ∈ removed, ∃ r, s.storage.committed[e.id]? = some r ∧
      e = ⟨e.id, r.timestamp, r.data.length⟩ :=
    fun e he => HeapStorage.mem_listing.1 (hevicts.perm.mem_iff.2 (List.mem_append_left _ he))
  refine ⟨removed, _, ⟨eviction, hplain, hasked, by omega⟩, hsize ▸ hevicts.fits,
    fun e he => hsize ▸ hevicts.just_enough e he, fun e he => ⟨?_, ?_⟩, fun id hid => ?_,
    fun e he id r hr => ?_, without_eq _ _⟩
  · rw [HeapStorage.committed_without, if_pos (List.mem_map_of_mem he)]
  · obtain ⟨r, hr, heq⟩ := hfound e he
    exact ⟨r, hr, (congrArg Listed.size heq).symm⟩
  · rw [HeapStorage.committed_without, if_neg]
    intro hmem
    obtain ⟨e, he, heq⟩ := List.mem_map.1 hmem
    exact hid e he heq
  · obtain ⟨r', hr', heq⟩ := hfound e he
    obtain ⟨since, hlast⟩ := hdated e.id r' hr'
    obtain ⟨since', hlast'⟩ := hdated id r (committed_of_without _ hr)
    have hmem : ⟨id, r.timestamp, r.data.length⟩ ∈ kept :=
      hkept.mem_iff.1 (HeapStorage.mem_listing.2 ⟨r, hr, rfl⟩)
    -- the listing by age is one by last accesses, since both resources are dated
    have hle := hevicts.oldest e he _ hmem
    rw [heq] at hle
    refine ⟨r'.timestamp, since, since', hlast, hlast', hle, fun hlonger => ?_⟩
    have hge := hlast'.le_of_longer hlast hchronological hlonger
    exact congrArg Duration.mk (Nat.le_antisymm hge hle)

/-- After any run under a clock that never goes back, an eviction removes the resources that were accessed
longest ago, as few as will do, in whatever order they are listed. -/
theorem evicts_least_recent (name : String) (enabled : Bool) (clock : Clock) (moments : List Moment)
    (hclock : moments.Pairwise fun m m' => m.time ≤ m'.time) (order : ListingOrder)
    (target : Nat) :
    ∃ removed s', EvictsLeastRecent order ((opened name enabled clock).performAllAt moments).storage
      ((opened name enabled clock).accessesOfAll moments) target removed s' := by
  have hdated : (opened name enabled clock).Dated [] := fun _ _ hr =>
    nomatch (Std.TreeMap.getElem?_emptyc.symm.trans hr)
  exact exists_evictsLeastRecent (hdated.performAllAt rfl moments) (chronological hclock) order target

/-- Three resources, the first of which is read at the time when the third is committed. -/
def readAgain : List Moment :=
  [{ time := ⟨1⟩, request := .insert "a" "w" }, { time := ⟨1⟩, request := .write "w" [1, 2] },
    { time := ⟨1⟩, request := .commit "w" }, { time := ⟨2⟩, request := .insert "b" "w" },
    { time := ⟨2⟩, request := .write "w" [3, 4] }, { time := ⟨2⟩, request := .commit "w" },
    { time := ⟨3⟩, request := .insert "c" "w" }, { time := ⟨3⟩, request := .commit "w" },
    { time := ⟨3⟩, request := .read "a" }, { time := ⟨4⟩, request := .contains "b" }]

theorem evicts_least_recent_readAgain :
    readAgain.Pairwise (fun m m' => m.time ≤ m'.time) ∧
      (∃ removed s', EvictsLeastRecent ⟨List.reverse, List.reverse_perm⟩
        ((opened "heap" true (.manual 0)).performAllAt readAgain).storage
        ((opened "heap" true (.manual 0)).accessesOfAll readAgain) 2 removed s') ∧
      (opened "heap" true (.manual 0)).accessesOfAll readAgain
        = [⟨"a", ⟨1⟩⟩, ⟨"b", ⟨2⟩⟩, ⟨"c", ⟨3⟩⟩, ⟨"a", ⟨3⟩⟩] ∧
      ((opened "heap" true (.manual 0)).performAllAt readAgain).storage.size = 4 := by
  have hclock : readAgain.Pairwise (fun m m' => m.time ≤ m'.time) := by decide
  exact ⟨hclock, evicts_least_recent "heap" true (.manual 0) readAgain hclock _ 2, by decide +kernel,
    by decide +kernel⟩

end StorageSession

end RefCache
