import RefCache.Proofs.Chronicle.Ghosts
import RefCache.Proofs.FractionFollows

/-!
# Ghost lists record evictions

Each half of an adaptive policy has a list of ghosts, and what the list remembers follows from two things
only: the entries that the half has given up to a limit or a trim, and the requests in vain that it was told
of since (`GhostsRecord`). Entries that leave in any other way leave no trace.
-/

namespace RefCache

universe u

variable {κ : Type u} [Key κ]

/-- An operation makes a half give up an entry under the key, which has been used so many times: by a trim, or
because it exceeds its limits at the end of the operation. -/
inductive Asked.GivesUp (x : Asked κ) (half : Half) (k : κ) (uses : Nat) : Prop where
  | trim (s : Surroundings) (pressure : Pressure) (ratio : Float) (id : EntryId) (e : Entry κ)
      (op_eq : x.op = .trim s pressure ratio)
      (evicted : id ∈ (x.cache.policy.trim x.cache.entries.accesses (x.cache.trimTarget ratio)).1)
      (from_half : id ∈ x.cache.policy.idsOf half) (entry : x.cache.entries.get? id = some e)
      (key_eq : e.key = k) (uses_eq : e.accesses = uses)
  | limits (id : EntryId) (e : Entry κ) (evicts : x.op.evicts = true)
      (evicted : id ∈ (x.cache.beforeEviction x.op).evicted.1)
      (from_half : id ∈ (x.cache.beforeEviction x.op).cache.policy.idsOf half)
      (entry : (x.cache.beforeEviction x.op).cache.entries.get? id = some e)
      (key_eq : e.key = k) (uses_eq : e.accesses = uses)

/-- What the ghosts of a half remember, `ghosts`, after what they were told of the operations. -/
structure GhostsRecord (capacity : Nat) (half : Half) (l : List (Asked κ)) (ghosts : List (κ × Nat)) :
    Prop where
  remembered_eq : ghosts = GhostEvent.remembered capacity (l.flatMap (Asked.ghostEvents half))
  nodup : (ghosts.map Prod.fst).Nodup
  length_le : ghosts.length ≤ capacity
  /-- The half gave up an entry under every key that is remembered. The uses are those of the latest such
  entry, and one for each miss since. -/
  counted : ∀ k uses, (k, uses) ∈ ghosts → ∃ before first after,
    l.flatMap (Asked.ghostEvents half) = before ++ .evicted k first :: after ∧
      (∀ again, .evicted k again ∉ after) ∧ uses = first + after.count (.missed k)
  /-- The ghosts are told of all the evictions that happen, and of no others. -/
  given_up : ∀ x ∈ l, ∀ k uses, .evicted k uses ∈ x.ghostEvents half ↔ x.GivesUp half k uses
  /-- And of all requests in vain, those of the MFU half unless the LFU ghosts know the key. -/
  missed : ∀ x ∈ l, ∀ k, .missed k ∈ x.ghostEvents half ↔
    x.cache.missed x.op = some k ∧ (half = .mfu → x.cache.policy.lfuRemembers k = false)
  /-- The least recent key comes first. -/
  ordered : ghosts.Pairwise fun x y =>
    GhostEvent.LaterIn (l.flatMap (Asked.ghostEvents half)) x.1 y.1
  /-- Only the least recent key is ever forgotten, and only for a new one that exceeds the capacity. -/
  forgets : ∀ before event after k, l.flatMap (Asked.ghostEvents half) = before ++ event :: after →
    k ∈ (GhostEvent.remembered capacity before).map Prod.fst →
    k ∉ (GhostEvent.remembered capacity (before ++ [event])).map Prod.fst →
    ∃ k' uses, event = .evicted k' uses ∧ k' ∉ (GhostEvent.remembered capacity before).map Prod.fst ∧
      (GhostEvent.remembered capacity before).length = capacity ∧
      (GhostEvent.remembered capacity before).head?.map Prod.fst = some k
  /-- What is given up becomes the most recent key, if there is room for any. -/
  remembers : 0 < capacity → ∀ before k uses after,
    l.flatMap (Asked.ghostEvents half) = before ++ .evicted k uses :: after →
    (GhostEvent.remembered capacity (before ++ [.evicted k uses])).getLast? = some (k, uses)

namespace Asked

variable {x : Asked κ} {half : Half} {k : κ} {uses : Nat}

/-- The ghosts are told of the entries that the policy gives up. -/
theorem evicted_mem_toldOfEviction {p : Policy κ} {table : EntryTable κ} {ids : List EntryId} :
    .evicted k uses ∈ p.toldOfEviction table ids half ↔
      ∃ id e, id ∈ ids ∧ id ∈ p.idsOf half ∧ table.get? id = some e ∧ e.key = k ∧ e.accesses = uses := by
  constructor
  · intro h
    obtain ⟨id, hid, htold⟩ := List.mem_filterMap.1 h
    obtain ⟨hmem, hhalf⟩ := List.mem_filter.1 hid
    obtain ⟨e, he, heq⟩ := Option.map_eq_some_iff.1 htold
    obtain ⟨hkey, huses⟩ := GhostEvent.evicted.inj heq
    exact ⟨id, e, hmem, of_decide_eq_true hhalf, he, hkey, huses⟩
  · rintro ⟨id, e, hmem, hhalf, he, rfl, rfl⟩
    refine List.mem_filterMap.2 ⟨id, List.mem_filter.2 ⟨hmem, decide_eq_true hhalf⟩, ?_⟩
    rw [he]
    rfl

theorem missed_not_mem_toldOfEviction {p : Policy κ} {table : EntryTable κ} {ids : List EntryId} :
    .missed k ∉ p.toldOfEviction table ids half := by
  intro h
  obtain ⟨id, _, htold⟩ := List.mem_filterMap.1 h
  obtain ⟨e, _, heq⟩ := Option.map_eq_some_iff.1 htold
  simp at heq

/-- They are told of the request in vain that an operation is. -/
theorem mem_toldOfMiss {event : GhostEvent κ} : event ∈ x.toldOfMiss half ↔
    ∃ k, event = .missed k ∧ x.cache.missed x.op = some k ∧
      (half = .mfu → x.cache.policy.lfuRemembers k = false) := by
  unfold toldOfMiss
  cases x.cache.missed x.op with
  | none => simp
  | some k =>
    cases half with
    | lfu => simp [Policy.toldOfMiss]
    | mfu => cases hknown : x.cache.policy.lfuRemembers k <;> simp [Policy.toldOfMiss, hknown]

theorem evicted_mem_toldOfTrim : .evicted k uses ∈ x.toldOfTrim half ↔
    ∃ s pressure ratio id e, x.op = .trim s pressure ratio ∧
      id ∈ (x.cache.policy.trim x.cache.entries.accesses (x.cache.trimTarget ratio)).1 ∧
      id ∈ x.cache.policy.idsOf half ∧ x.cache.entries.get? id = some e ∧ e.key = k ∧ e.accesses = uses := by
  obtain ⟨c, op⟩ := x
  cases op with
  | trim s pressure ratio =>
    refine evicted_mem_toldOfEviction.trans ⟨?_, ?_⟩
    · rintro ⟨id, e, h⟩
      exact ⟨s, pressure, ratio, id, e, rfl, h⟩
    · rintro ⟨_, _, _, id, e, hop, h⟩
      obtain ⟨rfl, rfl, rfl⟩ := Operation.trim.inj hop
      exact ⟨id, e, h⟩
  | _ => simp [toldOfTrim]

/-- The ghosts of a half are told of what the half gives up. -/
theorem evicted_mem_ghostEvents : .evicted k uses ∈ x.ghostEvents half ↔ x.GivesUp half k uses := by
  simp only [ghostEvents, List.mem_append, mem_toldOfMiss, evicted_mem_toldOfTrim]
  constructor
  · -- a trim and the limits give something up, and a miss does not
    rintro ((⟨s, pressure, ratio, id, e, hop, hid, hhalf, he, hkey, huses⟩ | ⟨_, hmiss, _⟩) | hlimits)
    · exact .trim s pressure ratio id e hop hid hhalf he hkey huses
    · simp at hmiss
    · unfold toldOfLimits at hlimits
      split at hlimits
      · obtain ⟨id, e, hid, hhalf, he, hkey, huses⟩ := evicted_mem_toldOfEviction.1 hlimits
        exact .limits id e ‹_› hid hhalf he hkey huses
      · simp at hlimits
  · intro h
    cases h with
    | trim s pressure ratio id e hop hid hhalf he hkey huses =>
      exact .inl (.inl ⟨s, pressure, ratio, id, e, hop, hid, hhalf, he, hkey, huses⟩)
    | limits id e hevicts hid hhalf he hkey huses =>
      refine .inr ?_
      rw [toldOfLimits, if_pos hevicts]
      exact evicted_mem_toldOfEviction.2 ⟨id, e, hid, hhalf, he, hkey, huses⟩

theorem missed_mem_ghostEvents : .missed k ∈ x.ghostEvents half ↔
    x.cache.missed x.op = some k ∧ (half = .mfu → x.cache.policy.lfuRemembers k = false) := by
  -- what is given up is no miss
  have htrim : .missed k ∉ x.toldOfTrim half := by
    unfold toldOfTrim
    split
    · exact missed_not_mem_toldOfEviction
    · simp
  have hlimits : .missed k ∉ x.toldOfLimits half := by
    unfold toldOfLimits
    split
    · exact missed_not_mem_toldOfEviction
    · simp
  simp only [ghostEvents, List.mem_append, mem_toldOfMiss, htrim, hlimits, false_or, or_false,
    GhostEvent.missed.injEq]
  constructor
  · rintro ⟨_, rfl, h⟩
    exact h
  · exact fun h => ⟨k, rfl, h⟩

end Asked

/-- As long as all is in order, the ghosts of either half record what it has given up. -/
theorem Cache.Chronicle.ghostsRecord {t : Tuning} {c c' : Cache κ} {l : List (Asked κ)}
    (h : c.Chronicle l c') (hstart : c.policy = .newAdaptive t) (hready : ∀ x ∈ l, x.Ready) :
    ∃ a, c'.policy = .adaptive a ∧ ∀ half,
      GhostsRecord t.validated.ghostCapacity.toNat half l (a.pool half).ghosts.toList := by
  obtain ⟨a, ha, _⟩ := h.sound hstart
  refine ⟨a, ha, fun half => ?_⟩
  -- the list of ghosts is what the events make of the empty one
  have hghosts := h.ghosts hstart hready half
  rw [ha] at hghosts
  have hnoted := Option.some.inj hghosts
  obtain ⟨hcapacity, hremembered⟩ := History.toList_foldl_note t.validated.ghostCapacity.toNat
    (l.flatMap (Asked.ghostEvents half))
  rw [← hnoted] at hcapacity hremembered
  exact
    { remembered_eq := hremembered
      nodup := (a.pool half).ghosts.nodup_keys
      length_le := hcapacity ▸ (a.pool half).ghosts.length_toList_le
      counted := fun k uses hmem => GhostEvent.mem_remembered (hremembered ▸ hmem)
      given_up := fun _ _ _ _ => Asked.evicted_mem_ghostEvents
      missed := fun _ _ _ => Asked.missed_mem_ghostEvents
      ordered := hremembered ▸ GhostEvent.remembered_pairwise _ _
      forgets := fun _ _ _ _ _ hk hgone => GhostEvent.forgotten hk hgone
      remembers := fun hcapacity before k uses _ _ =>
        GhostEvent.getLast?_remembered_evicted hcapacity before k uses }

namespace Session

/-- In every session of an adaptive cache, the ghosts of either half have recorded all along what it has given
up to limits and trims. -/
theorem ghosts_record (setup : Setup κ) {tuning : Tuning} (htuned : setup.tuning = some tuning)
    (steps : List (Step κ)) (hsetup : setup.KeyDetermined)
    (hsteps : ∀ step ∈ steps, step.KeyDetermined) :
    (∃ l, ((start setup).runAll steps).ChronicledFrom (start setup).cache l ∧ ∀ x ∈ l, x.Ready) ∧
      ∀ l, ((start setup).runAll steps).ChronicledFrom (start setup).cache l → (∀ x ∈ l, x.Ready) →
        Throughout (fun l c => ∃ a, c.policy = .adaptive a ∧ ∀ half,
          GhostsRecord tuning.validated.ghostCapacity.toNat half l (a.pool half).ghosts.toList) l
          ((start setup).runAll steps).cache := by
  refine ⟨exists_chronicle_of_keyDetermined setup steps hsetup hsteps, fun l hl hready => ?_⟩
  exact throughout_of_keyDetermined setup steps hsetup hsteps hl hready fun _ _ h hready _ =>
    h.ghostsRecord (policy_start htuned) hready

/-- A cache in which nothing exclusive can stay, and ghosts of two keys. -/
def haunted : Setup Nat where
  tuning := some { ghostCapacity := 2 }
  limits := { maxQueueEntries := 0 }

/-- The first value is missed once, so the third one puts the second one out of the ghosts. The first one
comes back, is evicted as one that is used often, and is missed again. -/
def missedAndBack : List (Step Nat) :=
  [.request (.put 1 { tag := "a", size := 10 } none none),
    .request (.put 2 { tag := "b", size := 10 } none none),
    .request (.get 1 none),
    .request (.put 3 { tag := "c", size := 10 } none none),
    .request (.put 1 { tag := "d", size := 10 } none none),
    .request (.get 1 none)]

theorem ghosts_record_missedAndBack :
    (∃ l, ((start haunted).runAll missedAndBack).ChronicledFrom (start haunted).cache l ∧
      Throughout (fun l c => ∃ a, c.policy = .adaptive a ∧ ∀ half,
        GhostsRecord 2 half l (a.pool half).ghosts.toList) l ((start haunted).runAll missedAndBack).cache) ∧
      ((start haunted).runAll missedAndBack).cache.policy.pools.map (·.ghosts.toList)
        = [[(3, 1), (1, 3)], [(1, 3)]] := by
  obtain ⟨⟨l, hl, hready⟩, hall⟩ := ghosts_record haunted rfl missedAndBack (fun _ hr => nomatch hr)
    fun step hstep => by
      simp only [missedAndBack, List.mem_cons, List.not_mem_nil, or_false] at hstep
      rcases hstep with rfl | rfl | rfl | rfl | rfl | rfl
      · trivial
      · trivial
      · trivial
      · trivial
      · trivial
      · trivial
  exact ⟨⟨l, hl, hall l hl hready⟩, by decide +kernel⟩

end Session

end RefCache
