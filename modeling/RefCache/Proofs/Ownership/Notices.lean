import RefCache.Proofs.Ownership.Discard
import RefCache.Proofs.Ownership.Pools
import RefCache.Proofs.Ownership.Trace

/-!
# What an operation reports

An operation reports every entry that it gives to the policy and every entry that it takes out, in that
order. `Cache.Reports c t` says what the notices of a transition `t` from the cache `c` have to do with
the two states:

* `toggles`: the flags reported about an entry go to and fro, from whether it was exclusive to whether
  it is
* `noticed`, `detached`, `pooled`: an entry that is reported, let go or exclusive was no orphan before
* `late`: all that is reported after the first notice is gone from the cache

`apply_reports` says so for every operation.
-/

namespace RefCache

universe u

/-! ## Flags -/

/-- The flags go to and fro, from `b` to `b'`. -/
def Toggles (b : Bool) : List Bool → Bool → Prop
  | [], b' => b = b'
  | flag :: rest, b' => flag = !b ∧ Toggles flag rest b'

namespace Toggles

theorem append {a b c : Bool} {flags flags' : List Bool} (h : Toggles a flags b)
    (h' : Toggles b flags' c) : Toggles a (flags ++ flags') c := by
  induction flags generalizing a with
  | nil =>
    cases h
    exact h'
  | cons flag rest ih => exact ⟨h.1, ih h.2⟩

/-- Every other flag is the same, and those in between are the opposite. -/
theorem getElem {a b : Bool} {flags : List Bool} (h : Toggles a flags b) (i : Nat)
    (hi : i < flags.length) : flags[i] = (a != decide (i % 2 = 0)) := by
  induction flags generalizing a i with
  | nil => simp at hi
  | cons flag rest ih =>
    cases i with
    | zero => simp [h.1]
    | succ i =>
      have hrest := ih h.2 i (by simpa using hi)
      have hparity : (i + 1) % 2 = 0 ↔ ¬ i % 2 = 0 := by omega
      rw [List.getElem_cons_succ, hrest, h.1]
      simp only [hparity, decide_not]
      cases a <;> simp

/-- The last flag is where they end, and without flags they end where they begin. -/
theorem getLast?_getD {a b : Bool} {flags : List Bool} (h : Toggles a flags b) :
    flags.getLast?.getD a = b := by
  induction flags generalizing a with
  | nil => exact h
  | cons flag rest ih =>
    rw [← ih h.2, List.getLast?_cons, Option.getD_some]

/-- If there are flags, the last one is where they end. -/
theorem getLast?_of_ne_nil {a b : Bool} {flags : List Bool} (h : Toggles a flags b)
    (hne : flags ≠ []) : flags.getLast? = some b := by
  have hlast := h.getLast?_getD
  rw [List.getLast?_eq_some_getLast hne, Option.getD_some] at hlast
  rw [List.getLast?_eq_some_getLast hne, hlast]

/-- Without flags, nothing changes. -/
theorem ne_nil {a b : Bool} {flags : List Bool} (h : Toggles a flags b) (hne : a ≠ b) :
    flags ≠ [] := by
  rintro rfl
  exact hne h

end Toggles

/-- The flags that are reported about an entry, in order. -/
def flagsOf (id : EntryId) (notices : List Notice) : List Bool :=
  (notices.filter (·.entry = id)).map Notice.exclusive

@[simp] theorem flagsOf_nil (id : EntryId) : flagsOf id [] = [] := rfl

@[simp] theorem flagsOf_append (id : EntryId) (l l' : List Notice) :
    flagsOf id (l ++ l') = flagsOf id l ++ flagsOf id l' := by
  simp [flagsOf]

theorem flagsOf_cons (id : EntryId) (n : Notice) (l : List Notice) :
    flagsOf id (n :: l) = (if n.entry = id then [n.exclusive] else []) ++ flagsOf id l := by
  by_cases hid : n.entry = id <;> simp [flagsOf, hid]

theorem flagsOf_eq_nil {id : EntryId} {l : List Notice} (h : ∀ n ∈ l, n.entry ≠ id) :
    flagsOf id l = [] := by
  simpa [flagsOf] using h

/-- Entries that are all different are reported once each. -/
theorem flagsOf_map_of_nodup {ids : List EntryId} (h : ids.Nodup) (id : EntryId) (flag : Bool) :
    flagsOf id (ids.map (⟨·, flag⟩)) = if id ∈ ids then [flag] else [] := by
  induction ids with
  | nil => rfl
  | cons j rest ih =>
    rw [List.nodup_cons] at h
    rw [List.map_cons, flagsOf_cons, ih h.2]
    by_cases hj : j = id
    · subst hj
      simp [h.1]
    · simp [hj, Ne.symm hj]

variable {κ : Type u}

namespace Cache

variable [Key κ]

/-! ## Entries that are there, and entries that have left -/

/-- The entry is there, and has not left the cache. -/
def Alive (c : Cache κ) (id : EntryId) : Prop :=
  ∃ e, c.entries.get? id = some e ∧ e.orphan = false

/-- The entry was there once, and has left the cache. -/
def Departed (c : Cache κ) (id : EntryId) : Prop :=
  id < c.entries.next ∧ ∀ e, c.entries.get? id = some e → e.orphan = true

variable {c c' : Cache κ} {id : EntryId}

theorem Alive.lt_next (h : c.Alive id) : id < c.entries.next := by
  obtain ⟨e, he, _⟩ := h
  exact Register.lt_next_of_get? _ he

theorem Departed.not_alive (h : c.Departed id) : ¬ c.Alive id := by
  rintro ⟨e, he, horphan⟩
  simp [h.2 e he] at horphan

/-- What has left stays away, whatever becomes of the table. -/
theorem Departed.evolves (h : c.Departed id) (hevolves : c.entries.Evolves c'.entries) :
    c'.Departed id := by
  refine ⟨Nat.lt_of_lt_of_le h.1 hevolves.next_le, fun e' he' => ?_⟩
  obtain ⟨e, he, hbecomes⟩ := hevolves.earlier id e' h.1 he'
  exact hbecomes.orphan (h.2 e he)

namespace OwnedExcept

variable {loose : List (κ × Sized EntryId)}

theorem alive_of_cached (h : c.OwnedExcept loose) {x : κ × Sized EntryId}
    (hx : x ∈ c.cached.toList) : c.Alive x.2.value := by
  obtain ⟨e, he, _, _, horphan⟩ := h.entry_of_cached x hx
  exact ⟨e, he, horphan⟩

theorem alive_of_get? (h : c.OwnedExcept loose) {k : κ} (hget : c.cached.get? k = some id) :
    c.Alive id := by
  obtain ⟨size, hmem⟩ := (c.cached.get?_eq_some_iff k id).1 hget
  exact h.alive_of_cached hmem

theorem alive_of_item (h : c.OwnedExcept loose) (hid : id ∈ c.policy.ids) : c.Alive id := by
  rw [Policy.ids_eq_map_items] at hid
  obtain ⟨x, hx, rfl⟩ := List.mem_map.1 hid
  exact h.alive_of_cached (h.cached_of_item hx)

/-- What was given out once and is not cached has left. -/
theorem departed_of_not_cached (h : c.OwnedExcept loose) (hid : id < c.entries.next)
    (hnot : ∀ x ∈ c.cached.toList, x.2.value ≠ id) : c.Departed id := by
  refine ⟨hid, fun e he => ?_⟩
  cases horphan : e.orphan with
  | true => rfl
  | false => exact absurd rfl (hnot _ (h.cached_of_entry id e he horphan))

/-- An entry has left when nothing is cached any more under the key that it had. -/
theorem departed_of_key_gone (h : c.OwnedExcept loose) {loose' : List (κ × Sized EntryId)}
    (h' : c'.OwnedExcept loose') (hevolves : c.entries.Evolves c'.entries)
    (hsub : ∀ x ∈ c'.cached.toList, x ∈ c.cached.toList) {y : κ × Sized EntryId}
    (hy : y ∈ c.cached.toList) (hgone : ∀ x ∈ c'.cached.toList, x.1 ≠ y.1) :
    c'.Departed y.2.value := by
  have hlt := Nat.lt_of_lt_of_le (h.alive_of_cached hy).lt_next hevolves.next_le
  refine h'.departed_of_not_cached hlt fun x hx hvalue => ?_
  -- an entry is cached under one key only
  rw [h.eq_of_same_entry (hsub x hx) hy hvalue] at hx
  exact hgone y hx rfl

end OwnedExcept

/-! ## Reports -/

/-- What the notices of a transition have to do with the cache it started from. -/
structure Reports (c : Cache κ) (t : Transition κ) : Prop where
  toggles : ∀ id, Toggles (decide (id ∈ c.policy.ids)) (flagsOf id t.notices)
    (decide (id ∈ t.cache.policy.ids))
  noticed : ∀ n ∈ t.notices, c.Alive n.entry
  detached : ∀ id ∈ t.detached, c.Alive id
  pooled : ∀ id ∈ t.cache.policy.ids, c.Alive id
  late : ∀ n ∈ t.notices.tail, t.cache.Departed n.entry

namespace Reports

variable {t t' : Transition κ}

theorem start (h : c.Owned) : c.Reports c.start where
  toggles := fun _ => rfl
  noticed := fun _ hn => nomatch hn
  detached := fun _ hid => nomatch hid
  pooled := fun _ hid => h.alive_of_item hid
  late := fun _ hn => nomatch hn

/-- Whoever is reported or let go was there before. -/
theorem alive (h : c.Reports t) {id : EntryId}
    (hid : id ∈ t.notices.map Notice.entry ++ t.detached) : c.Alive id := by
  rcases List.mem_append.1 hid with hid | hid
  · obtain ⟨n, hn, rfl⟩ := List.mem_map.1 hid
    exact h.noticed n hn
  · exact h.detached id hid

/-- An entry that has left is not reported again. -/
theorem flagsOf_of_departed (h : c.Reports t) {id : EntryId} (hid : c.Departed id) :
    flagsOf id t.notices = [] :=
  flagsOf_eq_nil fun n hn heq => hid.not_alive (heq ▸ h.noticed n hn)

/-- A step without notices, that keeps the exclusive entries. -/
theorem congr (h : c.Reports t) (hnotices : t'.notices = t.notices)
    (hids : ∀ id, id ∈ t'.cache.policy.ids ↔ id ∈ t.cache.policy.ids)
    (hdetached : ∀ id ∈ t'.detached, c.Alive id)
    (hlate : t.notices.tail = [] ∨ t.cache.entries.Evolves t'.cache.entries) : c.Reports t' where
  toggles := by
    intro id
    rw [hnotices, decide_eq_decide.2 (hids id)]
    exact h.toggles id
  noticed := hnotices ▸ h.noticed
  detached := hdetached
  pooled := fun id hid => h.pooled id ((hids id).1 hid)
  -- at most one notice precedes a change of the table, and nothing is late before that
  late := by
    rw [hnotices]
    intro n hn
    rcases hlate with hnil | hevolves
    · rw [hnil] at hn
      exact nomatch hn
    · exact (h.late n hn).evolves hevolves

/-- The policy gives up entries, and these are reported to be no longer exclusive. -/
theorem yield (h : c.Reports t) (hnodup : t.cache.policy.ids.Nodup) {ids : List EntryId}
    (hyield : t.cache.policy.Yields ids t'.cache.policy)
    (hnotices : t'.notices = t.notices ++ ids.map (⟨·, false⟩))
    (hdetached : ∀ id ∈ t'.detached, c.Alive id)
    (hlate : (t.notices = [] ∧ ids.length ≤ 1) ∨
      (t.cache.entries.Evolves t'.cache.entries ∧ ∀ id ∈ ids, t'.cache.Departed id)) :
    c.Reports t' := by
  obtain ⟨out, hout, hperm⟩ := hyield
  -- what was exclusive is given up or stays, and not both
  have hids : t.cache.policy.ids.Perm (ids ++ t'.cache.policy.ids) := by
    rw [hout, Policy.ids_eq_map_items, Policy.ids_eq_map_items, ← List.map_append]
    exact hperm.map _
  rw [hids.nodup_iff, List.nodup_append] at hnodup
  obtain ⟨hnodup, _, hdisjoint⟩ := hnodup
  constructor
  · intro id
    rw [hnotices, flagsOf_append, flagsOf_map_of_nodup hnodup]
    refine (h.toggles id).append ?_
    have hmem : decide (id ∈ t.cache.policy.ids) = decide (id ∈ ids ++ t'.cache.policy.ids) :=
      decide_eq_decide.2 hids.mem_iff
    rw [hmem]
    by_cases hid : id ∈ ids
    · have hgone : id ∉ t'.cache.policy.ids := fun hmem => hdisjoint id hid id hmem rfl
      -- the entry has just been reported as given up
      simp [hid, hgone, Toggles]
    · simp [hid, Toggles]
  · rw [hnotices]
    intro n hn
    rcases List.mem_append.1 hn with hn | hn
    · exact h.noticed n hn
    · obtain ⟨id, hid, rfl⟩ := List.mem_map.1 hn
      exact h.pooled id (hids.mem_iff.2 (List.mem_append_left _ hid))
  · exact hdetached
  · exact fun id hid => h.pooled id (hids.mem_iff.2 (List.mem_append_right _ hid))
  · rw [hnotices]
    intro n hn
    rcases hlate with ⟨hnil, hlength⟩ | ⟨hevolves, hgone⟩
    · rw [hnil, List.nil_append] at hn
      -- a single notice is the first one, and only those after it can be late
      have hshort := List.length_pos_of_mem hn
      rw [List.length_tail, List.length_map] at hshort
      omega
    · cases hl : t.notices with
      | nil =>
        rw [hl, List.nil_append] at hn
        obtain ⟨id, hid, rfl⟩ := List.mem_map.1 (List.mem_of_mem_tail hn)
        exact hgone id hid
      | cons first rest =>
        rw [hl, List.cons_append, List.tail_cons, List.mem_append] at hn
        rcases hn with hn | hn
        · exact (h.late n (by rw [hl]; exact hn)).evolves hevolves
        · obtain ⟨id, hid, rfl⟩ := List.mem_map.1 hn
          exact hgone id hid

end Reports

end Cache

namespace Transition

variable [Key κ]

/-! ## One lemma for each step -/

open Cache (Reports)

variable {c : Cache κ} {t : Transition κ} {table : EntryTable κ} {base : List EntryId}

theorem detached_reload (t : Transition κ) (s : Surroundings) : (t.reload s).detached = t.detached := by
  unfold reload
  split <;> rfl

theorem notices_reload (t : Transition κ) (s : Surroundings) : (t.reload s).notices = t.notices := by
  unfold reload
  split <;> rfl

theorem reports_reload (h : c.Reports t) (s : Surroundings) : c.Reports (t.reload s) := by
  refine h.congr (notices_reload t s) (fun id => by rw [policy_reload]) ?_ (.inr ?_)
  · rw [detached_reload]
    exact h.detached
  · rw [entries_reload]
    exact .refl _

/-- Looking for an exclusive entry is reported once at most. -/
theorem tail_notices_unqueue (hnone : t.notices = []) (k : κ) : (t.unqueue k).2.notices.tail = [] := by
  rw [unqueue_eq, hnone]
  cases (t.cache.policy.remove k).1 <;> rfl

/-- Taking the exclusive entry under a key from the policy is reported. -/
theorem reports_unqueue (h : c.Reports t) (horderly : t.Orderly table base [])
    (hnone : t.notices = []) (k : κ) : c.Reports (t.unqueue k).2 := by
  have hyield := t.cache.policy.remove_yields horderly.owned.nodup_item_keys k
  have hone : (t.cache.policy.remove k).1.toList.length ≤ 1 := by
    cases (t.cache.policy.remove k).1 <;> simp
  rw [unqueue_eq]
  exact h.yield horderly.owned.nodup_ids hyield rfl h.detached (.inl ⟨hnone, hone⟩)

/-- What is cached under a key is let go; the policy knows nothing of it. -/
theorem reports_detach (h : c.Reports t) (k : κ)
    (hcached : ∀ id, t.cache.cached.get? k = some id → c.Alive id) : c.Reports (t.detach k).2 := by
  cases hget : t.cache.cached.get? k with
  | none =>
    rw [detach_of_none hget]
    exact h
  | some id =>
    rw [detach_of_some hget]
    refine h.congr rfl (fun _ => Iff.rfl) (fun j hj => ?_) (.inr (.refl _))
    rcases List.mem_append.1 hj with hj | hj
    · exact h.detached j hj
    · rw [List.mem_singleton.1 hj]
      exact hcached id hget

theorem reports_orphan (h : c.Reports t) (id : EntryId) : c.Reports (t.orphan id) :=
  h.congr rfl (fun _ => Iff.rfl) h.detached
    (.inr (EntryTable.ages_update _ id Entry.ages_markOrphan).evolves)

theorem tail_notices_supersede (hnone : t.notices = []) (k : κ) :
    (t.supersede k).notices.tail = [] := by
  have hunqueue := tail_notices_unqueue hnone k
  have hdetach : ((t.unqueue k).2.detach k).2.notices = (t.unqueue k).2.notices := by
    unfold detach
    split <;> rfl
  unfold supersede
  dsimp only
  split
  · rw [hdetach, hunqueue]
  · show ((t.unqueue k).2.detach k).2.notices.tail = []
    rw [hdetach, hunqueue]

theorem reports_supersede (h : c.Reports t) (horderly : t.Orderly table base [])
    (hnone : t.notices = []) (k : κ)
    (hcached : ∀ id, t.cache.cached.get? k = some id → c.Alive id) : c.Reports (t.supersede k) := by
  have hunqueue := reports_unqueue h horderly hnone k
  have hdetach := reports_detach hunqueue k (by rw [cache_unqueue]; exact hcached)
  unfold supersede
  dsimp only
  split
  · exact hdetach
  · exact reports_orphan hdetach _

/-- As long as there is one notice at most, the table may change in any way. -/
theorem reports_accept (h : c.Reports t) (hone : t.notices.tail = []) (k : κ) (value : ValueId)
    (size : Nat) (observer : Option String) : c.Reports (t.accept k value size observer).2 :=
  h.congr rfl (fun _ => Iff.rfl) h.detached (.inl hone)

theorem reports_hit (h : c.Reports t) (hone : t.notices.tail = []) (id : EntryId) :
    c.Reports (t.hit id) :=
  h.congr rfl (fun _ => Iff.rfl) h.detached (.inl hone)

theorem reports_miss (h : c.Reports t) (k : κ) : c.Reports (t.miss k) := by
  refine h.congr rfl (fun id => ?_) h.detached (.inr (.refl _))
  show id ∈ (t.cache.policy.onMiss k).ids ↔ id ∈ t.cache.policy.ids
  rw [Policy.ids_eq_map_items, Policy.ids_eq_map_items, Policy.items_onMiss]

theorem reports_reject (h : c.Reports t) (size : Nat) : c.Reports (t.reject size) :=
  h.congr rfl (fun _ => Iff.rfl) h.detached (.inr (.refl _))

/-- The last client of a cached entry lets go: the entry is reported to be exclusive now. -/
theorem reports_release (h : c.Owned) {id : EntryId} {e : Entry κ}
    (he : c.entries.get? id = some e) (hclients : 0 < e.clients) :
    c.Reports ((c.start.updateEntry id Entry.dropClient).settle id) := by
  have hstart := Reports.start h
  have hget : (c.start.updateEntry id Entry.dropClient).cache.entries.get? id
      = some e.dropClient := by
    show Register.get? (c.entries.update id Entry.dropClient) id = _
    simp [Register.get?_update, he]
  -- only the last client of an entry that is no orphan makes it exclusive
  by_cases hlast : e.dropClient.clients = 0 ∧ e.dropClient.orphan = false
  · rw [settle_of_idle hget hlast]
    have hmem := h.cached_of_entry id e he hlast.2
    have hnew := h.not_item_of_held he hclients hmem
    have hids : (c.policy.enqueue id e.dropClient).ids.Perm (id :: c.policy.ids) := by
      rw [Policy.ids_eq_map_items, Policy.ids_eq_map_items]
      exact (c.policy.items_enqueue id e.dropClient hnew).map _
    have hnot : id ∉ c.policy.ids := by
      intro hid
      obtain ⟨e', he', _, hzero⟩ := (h.mem_ids_iff id).1 hid
      rw [he, Option.some.injEq] at he'
      subst he'
      omega
    -- the flags of the entry go up, and those of the others are as they were
    constructor
    · intro j
      show Toggles _ (flagsOf j [⟨id, true⟩]) (decide (j ∈ (c.policy.enqueue id e.dropClient).ids))
      have hj : decide (j ∈ (c.policy.enqueue id e.dropClient).ids)
          = decide (j ∈ id :: c.policy.ids) := decide_eq_decide.2 hids.mem_iff
      rw [hj, flagsOf_cons]
      by_cases hid : id = j
      · subst hid
        simp [hnot, Toggles]
      · simp [hid, Ne.symm hid, Toggles]
    · intro n hn
      rw [List.mem_singleton.1 hn]
      exact ⟨e, he, hlast.2⟩
    · exact hstart.detached
    · intro j hj
      rcases List.mem_cons.1 (hids.mem_iff.1 hj) with rfl | hj
      · exact ⟨e, he, hlast.2⟩
      · exact hstart.pooled j hj
    · exact fun n hn => nomatch hn
  · rw [settle_of_not_idle hget hlast]
    exact hstart.congr rfl (fun _ => Iff.rfl) hstart.detached (.inl rfl)

theorem ages_discard (t : Transition κ) (ids : List EntryId) :
    t.cache.entries.Ages (t.discard ids).cache.entries := by
  have hfold : ∀ (ids : List EntryId) (t : Transition κ),
      t.cache.entries.Ages (ids.foldl discardOne t).cache.entries := by
    intro ids
    induction ids with
    | nil => exact fun t => .refl _
    | cons id rest ih => exact fun t => (ages_discardOne t id).trans (ih _)
  unfold discard
  split
  · exact .refl _
  · exact hfold ids (t.log _)

/-- All that is loose is reported and let go, in order. -/
theorem Orderly.discard_consequences {loose : List (κ × Sized EntryId)}
    (h : t.Orderly table base loose) :
    (t.discard (loose.map (·.2.value))).notices
        = t.notices ++ (loose.map (·.2.value)).map (⟨·, false⟩) ∧
      (t.discard (loose.map (·.2.value))).detached = t.detached ++ loose.map (·.2.value) := by
  have hfold : ∀ (out : List (κ × Sized EntryId)) (t : Transition κ), t.Orderly table base out →
      ((out.map (·.2.value)).foldl Transition.discardOne t).notices
          = t.notices ++ (out.map (·.2.value)).map (⟨·, false⟩) ∧
        ((out.map (·.2.value)).foldl Transition.discardOne t).detached
          = t.detached ++ out.map (·.2.value) := by
    intro out
    induction out with
    | nil => exact fun t _ => ⟨by simp, by simp⟩
    | cons x rest ih =>
      intro t ht
      -- a loose entry is cached, so there is something to detach
      have hmem := (ht.owned.mem_idle (List.mem_append_left _ List.mem_cons_self)).1
      obtain ⟨e, he, hkey, _⟩ := ht.owned.entry_of_cached x hmem
      -- what is cached under the key of a loose entry is that entry
      have hget : t.cache.cached.get? e.key = some x.2.value := by
        rw [hkey]
        exact (t.cache.cached.get?_eq_some_iff _ _).2 ⟨x.2.size, hmem⟩
      have hone : (t.discardOne x.2.value).notices = t.notices ++ [⟨x.2.value, false⟩] ∧
          (t.discardOne x.2.value).detached = t.detached ++ [x.2.value] := by
        unfold Transition.discardOne
        rw [he]
        dsimp only
        rw [detach_of_some hget]
        exact ⟨rfl, rfl⟩
      obtain ⟨hnotices, hdetached⟩ := ih _ ht.discardOne
      rw [List.map_cons, List.foldl_cons, hnotices, hdetached, hone.1, hone.2]
      simp
  unfold Transition.discard
  split
  · rename_i hempty
    rw [List.isEmpty_iff] at hempty
    simp [hempty]
  · exact hfold loose _ (h.log _)

/-- What the policy gives up is let go and reported, in order. -/
theorem Orderly.yield_consequences (h : t.Orderly table base []) {ids : List EntryId} {policy : Policy κ}
    (hyield : t.cache.policy.Yields ids policy) (call : PolicyCall κ) :
    (((t.modify ({ · with policy := policy })).called call).discard ids).notices
        = t.notices ++ ids.map (⟨·, false⟩) ∧
      (((t.modify ({ · with policy := policy })).called call).discard ids).detached
        = t.detached ++ ids := by
  obtain ⟨out, rfl, hloose⟩ := h.loosen hyield call
  exact hloose.discard_consequences

/-- What the policy gives up is discarded, and reported. -/
theorem reports_yield (h : c.Reports t) (horderly : t.Orderly table base []) {ids : List EntryId}
    {policy : Policy κ} (hyield : t.cache.policy.Yields ids policy) (call : PolicyCall κ) :
    c.Reports (((t.modify ({ · with policy := policy })).called call).discard ids) := by
  let given := (t.modify ({ · with policy := policy })).called call
  have hsplit : ∃ out : List (κ × Sized EntryId), ids = out.map (·.2.value) ∧
      t.cache.policy.items.Perm (out ++ policy.items) := hyield
  obtain ⟨out, hout, hperm⟩ := hsplit
  -- what the policy gives up was exclusive, hence cached
  have hcached : ∀ x ∈ out, x ∈ t.cache.cached.toList := fun x hx =>
    horderly.owned.cached_of_item (hperm.mem_iff.2 (List.mem_append_left _ hx))
  obtain ⟨hnotices, hdetached⟩ := horderly.yield_consequences hyield call
  have hsheds : Sheds out given _ := discard_sheds fun x hx => by
    obtain ⟨e, he, hkey, _⟩ := horderly.owned.entry_of_cached x (hcached x hx)
    exact ⟨e, he, hkey⟩
  rw [← hout] at hsheds
  have hevolves := (ages_discard given ids).evolves
  have hgone : ∀ id ∈ ids, (given.discard ids).cache.Departed id := by
    intro id hid
    rw [hout] at hid
    obtain ⟨y, hy, rfl⟩ := List.mem_map.1 hid
    refine horderly.owned.departed_of_key_gone (horderly.yield hyield call).owned hevolves ?_
      (hcached y hy) ?_
    · intro x hx
      rw [hsheds.cached_eq] at hx
      exact (List.mem_filter.1 hx).1
    · intro x hx hkey
      rw [hsheds.cached_eq, List.mem_filter] at hx
      exact of_decide_eq_true hx.2 (hkey ▸ List.mem_map_of_mem hy)
  refine h.yield horderly.owned.nodup_ids ?_ hnotices ?_ (.inr ⟨hevolves, hgone⟩)
  · rw [policy_discard]
    exact hyield
  · rw [hdetached]
    intro id hid
    rcases List.mem_append.1 hid with hid | hid
    · exact h.detached id hid
    · exact h.pooled id (hyield.mem_ids id hid)

theorem reports_evict (h : c.Reports t) (horderly : t.Orderly table base []) :
    c.Reports t.evict :=
  reports_yield h horderly (t.cache.policy.evict_yields _ _ _) _

/-- The exclusive entries that a predicate chooses are reported, in the order of the pools. -/
theorem notices_removeMatching (t : Transition κ) (p : Predicate κ) :
    (t.removeMatching p).2.2.notices
      = t.notices ++ (t.cache.policy.removeAll p []).1.map (⟨·, false⟩) := by
  unfold Transition.removeMatching
  dsimp only
  rw [foldl_notify, foldl_orphan]
  rfl

/-- The keys that a predicate accepts leave, and the exclusive ones among them are reported. -/
theorem reports_removeMatching (h : c.Reports t) (horderly : t.Orderly table base [])
    {p : Predicate κ} (hp : p.KeyDetermined)
    (hcached : ∀ x ∈ t.cache.cached.toList, c.Alive x.2.value) :
    c.Reports (t.removeMatching p).2.2 := by
  -- the map keeps what the predicate refuses, and marks the rest
  have hdone := horderly.removeMatching hp
  have hcache := cache_removeMatching t p
  have hremoved := t.cache.cached.removeAll_of_keyDetermined hp (t.cache.policy.askedAfter [])
  have hyield := t.cache.policy.removeAll_yields hp [] horderly.owned.nodup_item_keys
  have hevolves : t.cache.entries.Evolves (t.removeMatching p).2.2.cache.entries := by
    rw [hcache]
    exact (EntryTable.ages_foldl_markOrphan _ _).evolves
  have hcached' : (t.removeMatching p).2.2.cache.cached.toList
      = t.cache.cached.toList.filter fun x => !p.answer [] x.1 := by
    rw [hcache]
    exact hremoved.2
  have hdetached : (t.removeMatching p).2.2.detached = t.detached
      ++ (t.cache.cached.removeAll p (t.cache.policy.askedAfter [])).1.map Prod.snd := by
    unfold Transition.removeMatching
    dsimp only
    rw [foldl_notify, foldl_orphan]
    rfl
  refine h.yield horderly.owned.nodup_ids ?_ (t.notices_removeMatching p) ?_
    (.inr ⟨hevolves, fun id hid => ?_⟩)
  · rw [hcache]
    exact hyield
  · -- detached is what the walk over the map has found, and that was cached
    rw [hdetached, hremoved.1]
    intro id hid
    rcases List.mem_append.1 hid with hid | hid
    · exact h.detached id hid
    · simp only [SizedMap.pairs, List.mem_map, List.mem_filter] at hid
      obtain ⟨_, ⟨⟨x, hx, rfl⟩, _⟩, rfl⟩ := hid
      exact hcached x hx
  · -- the key of an exclusive entry that is taken out is gone from the map as well
    rw [Policy.removeAll_fst, Policy.chosen, hp.choose_eq_filter] at hid
    simp only [List.mem_map, List.mem_filter] at hid
    obtain ⟨_, ⟨⟨y, hy, rfl⟩, hkey⟩, rfl⟩ := hid
    refine horderly.owned.departed_of_key_gone hdone.owned hevolves ?_
      (horderly.owned.cached_of_item hy) ?_
    · intro x hx
      rw [hcached'] at hx
      exact (List.mem_filter.1 hx).1
    · intro x hx hsame
      rw [hcached', List.mem_filter, hsame] at hx
      simp [hkey] at hx

end Transition

/-! ## One lemma for each operation -/

namespace Cache

variable [Key κ] {c : Cache κ} {base : List EntryId}

theorem store_reports (h : c.Owned) (hkept : c.KeepsOrphans base) (s : Surroundings) (k : κ)
    (value : ValueId) (size : Nat) (observer : Option String) :
    c.Reports (c.beforeEviction (.store s k value size observer)) := by
  have hreload := Transition.reports_reload (Reports.start h) s
  unfold beforeEviction
  dsimp only
  split
  · have hnone : (c.start.reload s).notices = [] := Transition.notices_reload c.start s
    have hsupersede := Transition.reports_supersede hreload ((start_orderly h hkept).reload s) hnone k
      fun id hget => h.alive_of_get? (Transition.cached_reload c.start s ▸ hget)
    exact Transition.reports_accept hsupersede (Transition.tail_notices_supersede hnone k) k value
      size observer
  · exact Transition.reports_reject hreload size

theorem get_reports (h : c.Owned) (hkept : c.KeepsOrphans base) (s : Surroundings) (k : κ) :
    c.Reports (c.beforeEviction (.get s k)) := by
  have hunqueue := Transition.reports_unqueue (Reports.start h) (start_orderly h hkept) rfl k
  unfold beforeEviction
  dsimp only
  split
  · exact Transition.reports_reload
      (Transition.reports_hit hunqueue (Transition.tail_notices_unqueue rfl k) _) s
  · exact Transition.reports_reload (Transition.reports_miss hunqueue k) s

theorem probe_reports (h : c.Owned) (k : κ) : c.Reports (c.probe k) := by
  have hstart := Reports.start h
  refine hstart.congr rfl (fun id => ?_) hstart.detached (.inl rfl)
  show id ∈ (c.policy.probe c.entries k).1.ids ↔ id ∈ c.policy.ids
  rw [Policy.ids_eq_map_items, Policy.ids_eq_map_items]
  refine ((c.policy.items_probe c.entries k h.nodup_item_keys fun x hx => ?_).map _).mem_iff
  obtain ⟨e, he, hkey, hsize, _⟩ := h.entry_of_cached x (h.cached_of_item hx)
  exact ⟨e, he, hkey, hsize⟩

theorem reuse_reports (h : c.Owned) (hkept : c.KeepsOrphans base) (k : κ) :
    c.Reports (c.reuse k).2 := by
  have hunqueue := Transition.reports_unqueue (Reports.start h) (start_orderly h hkept) rfl k
  unfold reuse
  dsimp only
  split
  · exact hunqueue
  · refine Transition.reports_orphan (Transition.reports_detach hunqueue k fun id hget => ?_) _
    rw [Transition.cache_unqueue] at hget
    exact h.alive_of_get? hget

theorem removeAll_reports (h : c.Owned) (hkept : c.KeepsOrphans base) (s : Surroundings)
    {p : Predicate κ} (hp : p.KeyDetermined) : c.Reports (c.beforeEviction (.removeAll s p)) :=
  Transition.reports_reload (Transition.reports_removeMatching (Reports.start h)
    (start_orderly h hkept) hp fun _ hx => h.alive_of_cached hx) s

theorem trim_reports (h : c.Owned) (hkept : c.KeepsOrphans base) (s : Surroundings)
    (pressure : Pressure) (ratio : Float) :
    c.Reports (c.beforeEviction (.trim s pressure ratio)) := by
  have hstart := Reports.start h
  have hlog : c.Reports (c.start.log (.trimming pressure ratio (c.trimTarget ratio))) :=
    hstart.congr rfl (fun _ => Iff.rfl) hstart.detached (.inl rfl)
  exact Transition.reports_reload (Transition.reports_yield hlog ((start_orderly h hkept).log _)
    (c.policy.trim_yields c.entries.accesses (c.trimTarget ratio)) _) s

theorem release_reports (h : c.Owned) (s : Surroundings) {id : EntryId}
    (hclients : 0 < c.entries.clients id) : c.Reports (c.beforeEviction (.release s id)) := by
  cases he : c.entries.get? id with
  | none =>
    rw [EntryTable.clients, Register.readout_of_none _ _ he] at hclients
    omega
  | some e =>
    rw [EntryTable.clients_of_get? he] at hclients
    exact Transition.reports_reload (Transition.reports_release h he hclients) s

/-! ## All operations -/

/-- What an operation reports until it evicts. -/
theorem beforeEviction_reports (h : c.Owned) (hkept : c.KeepsOrphans base) {op : Operation κ}
    (hop : op.KeyDetermined) (haccepts : c.Accepts base op) : c.Reports (c.beforeEviction op) := by
  cases op with
  | store s k value size observer => exact store_reports h hkept s k value size observer
  | get s k => exact get_reports h hkept s k
  | probe k => exact probe_reports h k
  | reuse k => exact reuse_reports h hkept k
  | removeAll s p => exact removeAll_reports h hkept s hop
  | clear s => exact removeAll_reports h hkept s Predicate.keyDetermined_always
  | trim s pressure ratio => exact trim_reports h hkept s pressure ratio
  | release s id => exact release_reports h s haccepts.1

/-- Whatever an operation does to the table, an entry that is there stays for now. -/
theorem exists_tableAfter (c : Cache κ) (op : Operation κ) {id : EntryId} {e : Entry κ}
    (he : c.entries.get? id = some e) : ∃ e', (c.tableAfter op).get? id = some e' := by
  -- a new number is above those given out, and a changed row stays
  have hadd : ∀ e₀ : Entry κ, Register.get? (c.entries.add e₀) id = some e := fun e₀ => by
    have hne : c.entries.next ≠ id := Nat.ne_of_gt (Register.lt_next_of_get? _ he)
    rw [Register.get?_add, if_neg hne]
    exact he
  have hupdate : ∀ (table : EntryTable κ) (j : EntryId) (change : Entry κ → Entry κ),
      table.get? id = some e → ∃ e', Register.get? (table.update j change) id = some e' := by
    intro table j change hget
    rw [Register.get?_update]
    split
    · rename_i hj
      exact ⟨change e, by rw [hj, hget, Option.map_some]⟩
    · exact ⟨e, hget⟩
  unfold tableAfter
  split
  · split
    · exact ⟨e, he⟩
    · exact hupdate _ _ _ (hadd _)
  · split
    · exact ⟨e, he⟩
    · exact hupdate _ _ _ he
  · exact hupdate _ _ _ he
  · exact ⟨e, he⟩

/-- What an operation reports. -/
theorem apply_reports (h : c.Owned) (hkept : c.KeepsOrphans base) {op : Operation κ}
    (hop : op.KeyDetermined) (haccepts : c.Accepts base op) : c.Reports (c.apply op) := by
  have hbefore := beforeEviction_reports h hkept hop haccepts
  rw [apply_eq]
  split
  · exact Transition.reports_evict hbefore (beforeEviction_orderly h hkept hop haccepts)
  · exact hbefore

end Cache

end RefCache
