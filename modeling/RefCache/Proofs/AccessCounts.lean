import RefCache.Proofs.Chronicle.Halves
import RefCache.Proofs.FractionFollows
import RefCache.Proofs.Ownership.Trace

/-!
# Uses are counted, and entries are sorted by them

An entry starts with the uses that the LFU ghosts remember of its key, and is used by every reference that
is handed out and by every probe that finds it exclusive (`Cache.UsesAddUp`). Those of its uses that come
while it is exclusive take it in anew, so every exclusive entry is in the half that suits its uses
(`Cache.Sorted`). Uses only add up: the way from one half to the other is the way from LFU to MFU.
-/

namespace RefCache

universe u

/-- The operation can make an entry exclusive, or exclusive anew. -/
def Operation.takesBack {κ : Type u} : Operation κ → Bool
  | .probe _ | .release .. => true
  | _ => false

variable {κ : Type u} [Key κ]

/-- A number that was not given out before is given to a value that is taken in. -/
theorem Cache.stored_of_tableAfter {c : Cache κ} {op : Operation κ} {id : EntryId} {e : Entry κ}
    (he : (c.tableAfter op).get? id = some e) (hnew : c.entries.next ≤ id) :
    ∃ s value size observer, op = .store s e.key value size observer ∧
      (c.store s e.key value size observer).1.isSome = true ∧ id = c.entries.next := by
  have hlt := Register.lt_next_of_get? _ he
  -- only a store gives out a number, and the number is the next one
  cases op with
  | store s k value size observer =>
    unfold tableAfter at he hlt
    dsimp only at he hlt
    cases hstored : (c.store s k value size observer).1 with
    | none =>
      rw [hstored] at hlt
      exact absurd hlt (Nat.not_lt.2 hnew)
    | some j =>
      rw [hstored] at he hlt
      simp only [EntryTable.enroll, Register.next_update, Register.next_add] at hlt
      obtain rfl : id = c.entries.next := Nat.le_antisymm (Nat.le_of_lt_succ hlt) hnew
      simp only [EntryTable.enroll, Register.get?_update, Register.get?_add, if_true, Option.map_some,
        Option.some.injEq] at he
      subst he
      exact ⟨s, value, size, observer, rfl, hstored ▸ rfl, rfl⟩
  | get s k =>
    unfold tableAfter at hlt
    dsimp only at hlt
    split at hlt
    · exact absurd hlt (Nat.not_lt.2 hnew)
    · rw [Register.next_update] at hlt
      exact absurd hlt (Nat.not_lt.2 hnew)
  | release s j =>
    rw [tableAfter, Register.next_update] at hlt
    exact absurd hlt (Nat.not_lt.2 hnew)
  | _ => exact absurd hlt (Nat.not_lt.2 hnew)

namespace Asked

/-- How often the operations handed an entry out. -/
def handouts (id : EntryId) (l : List (Asked κ)) : Nat :=
  l.countP fun x => x.cache.handsOut x.op = some id

/-- How often the operations were probes that found an entry exclusive. -/
def probings (id : EntryId) (l : List (Asked κ)) : Nat :=
  l.countP fun x => x.cache.probed x.op = some id

/-- The operation caches an entry under a key, of which the LFU ghosts remember so many uses then. -/
structure Introduces (x : Asked κ) (id : EntryId) (k : κ) (remembered : Nat) : Prop where
  stores : ∃ s value size observer, x.op = .store s k value size observer ∧
    (x.cache.store s k value size observer).1 = some id
  remembers : ∃ a, x.cache.policy = .adaptive a ∧ remembered = (a.lfu.ghosts.get? k).getD 0

variable {x : Asked κ} {id : EntryId} {e : Entry κ}

@[simp] theorem handouts_concat (id : EntryId) (l : List (Asked κ)) (x : Asked κ) :
    handouts id (l ++ [x]) = handouts id l + if x.cache.handsOut x.op = some id then 1 else 0 := by
  simp [handouts, List.countP_append, List.countP_singleton]

@[simp] theorem probings_concat (id : EntryId) (l : List (Asked κ)) (x : Asked κ) :
    probings id (l ++ [x]) = probings id l + if x.cache.probed x.op = some id then 1 else 0 := by
  simp [probings, List.countP_append, List.countP_singleton]

/-! ## Entries, old and new -/

theorem Ready.evolves (h : x.Ready) : x.cache.entries.Evolves x.after.entries := by
  obtain ⟨_, horderly⟩ := h.orderly
  exact (x.cache.evolves_tableAfter x.op).trans horderly.marks.evolves

/-- An entry with a number that was not given out before has been taken in. -/
theorem Ready.introduced (h : x.Ready) (he : x.after.entries.get? id = some e)
    (hnew : x.cache.entries.next ≤ id) : ∃ s value size observer,
      x.op = .store s e.key value size observer ∧
        (x.cache.store s e.key value size observer).1 = some id := by
  obtain ⟨_, horderly⟩ := h.orderly
  obtain ⟨e₀, he₀, hage⟩ := horderly.marks.earlier id e he
  obtain ⟨hkey, _⟩ := Entry.eq_of_withoutMarks hage.same
  obtain ⟨s, value, size, observer, hop, hstored, rfl⟩ := Cache.stored_of_tableAfter he₀ hnew
  obtain ⟨j, hj⟩ := Option.isSome_iff_exists.1 hstored
  rw [h.eq_next_of_store hj] at hj
  rw [hkey]
  exact ⟨s, value, size, observer, hop, hj⟩

/-- What is handed out has a client afterwards. -/
theorem Ready.clients_of_handsOut (h : x.Ready) (hid : x.cache.handsOut x.op = some id) :
    0 < x.after.entries.clients id := by
  obtain ⟨_, horderly⟩ := h.orderly
  -- the marks that an eviction leaves do not change who has clients
  rw [after, horderly.marks.clients_eq]
  obtain ⟨c, op⟩ := x
  cases op with
  | store s k value size observer =>
    have hstored : (c.store s k value size observer).1 = some id := hid
    obtain rfl := h.eq_next_of_store hstored
    unfold Cache.tableAfter
    dsimp only
    rw [hstored]
    simp [EntryTable.clients, Register.readout, EntryTable.enroll, Register.get?_update, Register.get?_add,
      Entry.addClient]
  | get s k =>
    have hfound : (c.get s k).1 = some id := hid
    obtain ⟨size, hmem⟩ := Cache.mem_cached_of_get hfound
    obtain ⟨e, he, _⟩ := h.owned.entry_of_cached _ hmem
    unfold Cache.tableAfter
    dsimp only
    rw [hfound]
    simp [EntryTable.clients, Register.readout, Register.get?_update, he, Entry.addClient]
  | _ => simp [Cache.handsOut] at hid

theorem Ready.not_exclusive_of_handsOut (h : x.Ready) (hid : x.cache.handsOut x.op = some id) :
    id ∉ x.after.policy.ids := by
  intro hmem
  obtain ⟨e, he, _, hzero⟩ := (h.owned_after.mem_ids_iff id).1 hmem
  have hclients := h.clients_of_handsOut hid
  rw [EntryTable.clients_of_get? he] at hclients
  omega

/-- A number that has not been given out yet is not used. -/
theorem Ready.not_used (h : x.Ready) (hid : x.after.entries.next ≤ id) :
    x.cache.handsOut x.op ≠ some id ∧ x.cache.probed x.op ≠ some id := by
  constructor
  · intro hout
    have hclients := h.clients_of_handsOut hout
    -- a number that has not been given out has no clients
    cases he : x.after.entries.get? id with
    | none =>
      rw [EntryTable.clients, Register.readout_of_none _ _ he] at hclients
      omega
    | some e =>
      have := Register.lt_next_of_get? _ he
      omega
  · -- what is found exclusive was in the table before
    intro hprobed
    have hnext := h.evolves.next_le
    obtain ⟨c, op⟩ := x
    cases op with
    | probe k =>
      obtain ⟨size, hmem⟩ := c.policy.mem_items_of_remove k id hprobed
      obtain ⟨e, he, _⟩ := h.owned.entry_of_cached _ (h.owned.cached_of_item hmem)
      have := c.entries.lt_next_of_get? he
      dsimp only at this hnext
      omega
    | _ => simp [Cache.probed] at hprobed

/-- What an operation counts for an entry that was there before. -/
theorem Ready.uses_old (h : x.Ready) {a : Adaptive κ} (hpolicy : x.cache.policy = .adaptive a)
    (hold : id < x.cache.entries.next) (he : x.after.entries.get? id = some e) :
    ∃ e', x.cache.entries.get? id = some e' ∧ e'.Becomes e ∧
      e.accesses = e'.accesses + ((if x.cache.handsOut x.op = some id then 1 else 0)
        + (if x.cache.probed x.op = some id then 1 else 0)) := by
  obtain ⟨e', he', hbecomes⟩ := h.evolves.earlier id e hold he
  have hafter := h.accesses_after hpolicy hold
  rw [EntryTable.accesses_of_get? he, EntryTable.accesses_of_get? he'] at hafter
  exact ⟨e', he', hbecomes, hafter⟩

/-- What an operation counts for an entry that was not there before: it has been taken in, and handed out. -/
theorem Ready.uses_new (h : x.Ready) {a : Adaptive κ} (hpolicy : x.cache.policy = .adaptive a)
    (hnew : x.cache.entries.next ≤ id) (he : x.after.entries.get? id = some e) :
    ∃ remembered, x.Introduces id e.key remembered ∧ x.cache.handsOut x.op = some id ∧
      x.cache.probed x.op = none ∧ e.accesses = remembered + 1 := by
  obtain ⟨s, value, size, observer, hop, hstored⟩ := h.introduced he hnew
  have hfirst := h.accesses_new hop hstored
  rw [EntryTable.accesses_of_get? he, hpolicy] at hfirst
  refine ⟨_, ⟨⟨s, value, size, observer, hop, hstored⟩, a, hpolicy, rfl⟩, ?_, ?_, hfirst⟩
  · rw [hop]
    exact hstored
  · rw [hop]
    rfl

/-! ## Where used entries are -/

/-- What is exclusive after an operation, and was not probed by it, has not been used. -/
theorem Ready.accesses_of_exclusive (h : x.Ready) {a : Adaptive κ} (hpolicy : x.cache.policy = .adaptive a)
    (hid : id ∈ x.after.policy.ids) (hprobed : x.cache.probed x.op ≠ some id) :
    x.after.entries.accesses id = x.cache.entries.accesses id := by
  have hout : x.cache.handsOut x.op ≠ some id := fun hout => h.not_exclusive_of_handsOut hout hid
  have hold : id < x.cache.entries.next := by
    obtain ⟨e, he, _⟩ := (h.owned_after.mem_ids_iff id).1 hid
    refine Nat.lt_of_not_le fun hnew => hout ?_
    obtain ⟨s, value, size, observer, hop, hstored⟩ := h.introduced he hnew
    rw [hop]
    exact hstored
  rw [h.accesses_after hpolicy hold, Cache.uses, if_neg hout, if_neg hprobed, Nat.add_zero]

end Asked

namespace Cache

theorem idsOf_apply (c : Cache κ) (op : Operation κ) (half : Half) :
    (c.apply op).cache.policy.idsOf half ⊆ (c.policyAfter op).idsOf half := by
  rw [policy_apply]
  split
  · rw [← policy_beforeEviction]
    exact Policy.idsOf_evict _ _ _ _ half
  · exact List.Subset.refl _

/-- Only probes and releases take entries in. -/
theorem idsOf_policyAfter (c : Cache κ) {op : Operation κ} (hop : op.takesBack = false) (half : Half) :
    (c.policyAfter op).idsOf half ⊆ c.policy.idsOf half := by
  cases op with
  -- all of them leave the pools a part of what was in them
  | store s k value size observer =>
    unfold policyAfter
    dsimp only
    split
    · exact List.Subset.refl _
    · exact c.policy.idsOf_remove k half
  | get s k =>
    unfold policyAfter
    dsimp only
    split
    · rw [Policy.idsOf_onMiss]
      exact c.policy.idsOf_remove k half
    · exact c.policy.idsOf_remove k half
  | reuse k => exact c.policy.idsOf_remove k half
  | removeAll s p => exact c.policy.idsOf_removeAll p [] half
  | clear s => exact c.policy.idsOf_removeAll .always [] half
  | trim s pressure ratio => exact c.policy.idsOf_trim _ _ half
  | probe k => simp [Operation.takesBack] at hop
  | release s id => simp [Operation.takesBack] at hop

/-- Every exclusive entry is in the half that suits its uses. -/
def Sorted (threshold : Nat) (c : Cache κ) : Prop :=
  ∀ half, ∀ id ∈ c.policy.idsOf half, ∀ e, c.entries.get? id = some e → half.Suits threshold e.accesses

variable {c c' : Cache κ} {threshold : Nat}

theorem sorted_iff (h : c.Owned) :
    c.Sorted threshold ↔ c.policy.Sorted threshold c.entries.accesses := by
  constructor
  · intro hsorted half id hid
    obtain ⟨e, he, _⟩ := (h.mem_ids_iff id).1 (Policy.mem_ids_of_idsOf hid)
    rw [EntryTable.accesses_of_get? he]
    exact hsorted half id hid e he
  · intro hsorted half id hid e he
    rw [← EntryTable.accesses_of_get? he]
    exact hsorted half id hid

theorem Rests.sorted (h : c.Rests c') (hsorted : c.Sorted threshold) : c'.Sorted threshold := by
  intro half id hid e he
  rcases h.contents with ⟨_, hpolicy⟩ | ⟨_, hpolicy⟩
  · exact hsorted half id (hpolicy ▸ hid) e (h.kept id e he)
  · rw [hpolicy, Policy.idsOf_emptied] at hid
    exact nomatch hid

/-- A probe counts a use of the entry it finds, and takes it in anew. -/
theorem sorted_probe (h : c.Owned) {a : Adaptive κ} (hpolicy : c.policy = .adaptive a)
    (hsorted : c.policy.Sorted a.threshold c.entries.accesses) (k : κ) :
    (c.policy.probe c.entries k).1.Sorted a.threshold (c.policy.probe c.entries k).2.accesses := by
  have hcounted := fun id => accesses_probe h hpolicy k id
  cases hfound : (c.policy.remove k).1 with
  | none =>
    rw [Policy.probe_of_absent hfound] at hcounted ⊢
    refine hsorted.congr (c.policy.idsOf_remove k) fun id _ => ?_
    rw [hcounted, hfound, if_neg (by simp), Nat.add_zero]
  | some j =>
    obtain ⟨size, hmem⟩ := c.policy.mem_items_of_remove k j hfound
    have hcached := h.cached_of_item hmem
    obtain ⟨e, he, _⟩ := h.entry_of_cached _ hcached
    have hprobe : (c.policy.probe c.entries k).1 = (c.policy.remove k).2.enqueue j e.recordAccess := by
      rw [hpolicy] at hfound ⊢
      rw [Policy.probe_adaptive_of_found hfound he]
    -- the other entries stay as they are
    have hrest : (c.policy.remove k).2.Sorted a.threshold (c.policy.probe c.entries k).2.accesses := by
      refine hsorted.congr (c.policy.idsOf_remove k) fun id hid => ?_
      rw [Policy.ids_eq_map_items, Policy.items_remove] at hid
      obtain ⟨x, hx, rfl⟩ := List.mem_map.1 hid
      obtain ⟨hitem, hother⟩ := List.mem_filter.1 hx
      have hne : ¬ some j = some x.2.value := by
        intro heq
        have hsame := h.eq_of_same_entry (h.cached_of_item hitem) hcached (Option.some.inj heq).symm
        simp [hsame] at hother
      rw [hcounted, hfound, if_neg hne, Nat.add_zero]
    -- the use that the probe counts is the one the entry is sorted by when it comes back
    have huses : (c.policy.probe c.entries k).2.accesses j = e.recordAccess.accesses := by
      rw [hcounted, hfound, if_pos rfl, EntryTable.accesses_of_get? he]
      rfl
    rw [hprobe]
    rw [hpolicy] at hrest huses ⊢
    exact Policy.Sorted.enqueue hrest huses

end Cache

namespace Asked

variable {x : Asked κ} {a : Adaptive κ}

/-- Every operation leaves the exclusive entries where they suit. -/
theorem Ready.sorted_after (h : x.Ready) (hpolicy : x.cache.policy = .adaptive a)
    (hsorted : x.cache.Sorted a.threshold) : x.after.Sorted a.threshold := by
  rw [Cache.sorted_iff h.owned] at hsorted
  rw [Cache.sorted_iff h.owned_after]
  have hids := x.cache.idsOf_apply x.op
  have hsame : ∀ id ∈ x.after.policy.ids, x.cache.probed x.op ≠ some id →
      x.after.entries.accesses id = x.cache.entries.accesses id := fun _ hid hprobed =>
    h.accesses_of_exclusive hpolicy hid hprobed
  obtain ⟨c, op⟩ := x
  cases hop : op.takesBack with
  -- what takes nothing in leaves each half a part of what it had, with the same uses
  | false =>
    have hprobed : c.probed op = none := by
      cases op with
      | probe k => simp [Operation.takesBack] at hop
      | _ => rfl
    refine hsorted.congr (fun half => List.Subset.trans (hids half) (c.idsOf_policyAfter hop half)) fun id hid => ?_
    refine hsame id hid ?_
    simp [hprobed]
  | true =>
    cases op with
    | probe k => exact Cache.sorted_probe h.owned hpolicy hsorted k
    | release s j =>
      -- the entry that comes back has not been used since it was read
      have hback : (c.policyAfter (.release s j)).Sorted a.threshold c.entries.accesses := by
        unfold Cache.policyAfter
        dsimp only
        cases he : c.entries.get? j with
        | none => exact hsorted
        | some e =>
          have huses : c.entries.accesses j = e.dropClient.accesses := by
            rw [EntryTable.accesses_of_get? he]
            rfl
          dsimp only
          split
          · dsimp only at hpolicy
            rw [hpolicy] at hsorted ⊢
            exact hsorted.enqueue huses
          · exact hsorted
      exact hback.congr hids fun id hid => hsame id hid (by simp [Cache.probed])
    | _ => simp [Operation.takesBack] at hop

end Asked

namespace Cache

/-! ## All along -/

/-- The uses of every entry are those that were remembered of its key when it came in, and those that the
operations have counted. -/
def UsesAddUp (l : List (Asked κ)) (c : Cache κ) : Prop :=
  ∀ id e, c.entries.get? id = some e → ∃ x ∈ l, ∃ remembered, x.Introduces id e.key remembered ∧
    e.accesses = remembered + Asked.handouts id l + Asked.probings id l

namespace Chronicle

variable {c c' : Cache κ} {l : List (Asked κ)} {t : Tuning}

/-- A number that has not been given out yet has never been used. -/
theorem not_used (h : c.Chronicle l c') (hready : ∀ x ∈ l, x.Ready) :
    ∀ id, c'.entries.next ≤ id → Asked.handouts id l = 0 ∧ Asked.probings id l = 0 := by
  refine h.invariant hready ?start ?rest ?ask
  case start => exact fun _ _ => ⟨rfl, rfl⟩
  case rest =>
    intro l c' c'' _ _ rests ih id hid
    exact ih id (rests.next_eq ▸ hid)
  case ask =>
    intro l x _ _ hlast ih id hid
    obtain ⟨hout, hprobed⟩ := hlast.not_used hid
    rw [Asked.handouts_concat, Asked.probings_concat, if_neg hout, if_neg hprobed]
    exact ih id (Nat.le_trans hlast.evolves.next_le hid)

theorem usesAddUp (h : c.Chronicle l c') (hstart : c.policy = .newAdaptive t)
    (hempty : ∀ id, c.entries.get? id = none) (hready : ∀ x ∈ l, x.Ready) : c'.UsesAddUp l := by
  refine h.invariant hready ?start ?rest ?ask
  case start => exact fun id e he => nomatch (hempty id).symm.trans he
  case rest =>
    intro l c' c'' _ _ rests ih id e he
    exact ih id e (rests.kept id e he)
  case ask =>
    intro l x before hready hlast ih id e he
    obtain ⟨b, hb, _⟩ := before.sound hstart
    -- an entry from before has its uses, and one more if the operation used it
    by_cases hold : id < x.cache.entries.next
    · obtain ⟨e', he', hbecomes, hused⟩ := hlast.uses_old hb hold he
      obtain ⟨y, hy, remembered, hintroduced, huses⟩ := ih id e' he'
      refine ⟨y, List.mem_append_left _ hy, remembered, hbecomes.key_eq ▸ hintroduced, ?_⟩
      rw [Asked.handouts_concat, Asked.probings_concat]
      omega
    · -- what is new has not been used by anything before
      have hnew := Nat.le_of_not_lt hold
      obtain ⟨remembered, hintroduced, hout, hprobed, hused⟩ := hlast.uses_new hb hnew he
      obtain ⟨hnever, hnever'⟩ := before.not_used hready id hnew
      refine ⟨x, by simp, remembered, hintroduced, ?_⟩
      rw [Asked.handouts_concat, Asked.probings_concat, hnever, hnever', hout, hprobed, hused]
      simp

theorem next_le (h : c.Chronicle l c') (hready : ∀ x ∈ l, x.Ready) :
    c.entries.next ≤ c'.entries.next := by
  refine h.invariant hready (Nat.le_refl _) ?rest ?ask
  case rest => exact fun _ _ _ _ _ rests ih => rests.next_eq ▸ ih
  case ask => exact fun _ _ _ _ hlast ih => Nat.le_trans ih hlast.evolves.next_le

/-- Uses only add up. -/
theorem accesses_le (h : c.Chronicle l c') (hready : ∀ x ∈ l, x.Ready) {id : EntryId}
    (hold : id < c.entries.next) :
    (∀ x ∈ l, ∃ a, x.cache.policy = .adaptive a) → ∀ e', c'.entries.get? id = some e' →
      ∃ e, c.entries.get? id = some e ∧ e.accesses ≤ e'.accesses := by
  refine h.invariant hready ?start ?rest ?ask
  case start => exact fun _ e' he' => ⟨e', he', Nat.le_refl _⟩
  case rest =>
    intro l c' c'' _ _ rests ih hadaptive e' he'
    exact ih hadaptive e' (rests.kept id e' he')
  case ask =>
    intro l x before hready hlast ih hadaptive e' he'
    obtain ⟨a, ha⟩ := hadaptive x (by simp)
    have hold' := Nat.lt_of_lt_of_le hold (before.next_le hready)
    obtain ⟨e, he, _, hused⟩ := hlast.uses_old ha hold' he'
    obtain ⟨e₀, he₀, hle⟩ := ih (fun y hy => hadaptive y (List.mem_append_left _ hy)) e he
    exact ⟨e₀, he₀, by omega⟩

theorem adaptive (h : c.Chronicle l c') (hstart : c.policy = .newAdaptive t) :
    ∀ x ∈ l, ∃ a, x.cache.policy = .adaptive a := by
  intro x hx
  obtain ⟨before, after, rfl⟩ := List.append_of_mem hx
  obtain ⟨a, ha, _⟩ := h.split.1.sound hstart
  exact ⟨a, ha⟩

/-- As long as all is in order, exclusive entries are in the half that suits their uses. -/
theorem sorted (h : c.Chronicle l c') (hstart : c.policy = .newAdaptive t)
    (hready : ∀ x ∈ l, x.Ready) : c'.Sorted t.validated.threshold.toNat := by
  refine h.invariant hready ?start ?rest ?ask
  case start =>
    intro half id hid
    rw [hstart] at hid
    cases half <;> exact nomatch hid
  case rest => exact fun _ _ _ _ _ rests ih => rests.sorted ih
  case ask =>
    intro l x before _ hlast ih
    obtain ⟨b, hb, hsound⟩ := before.sound hstart
    have hthreshold : b.threshold = t.validated.threshold.toNat := hsound.threshold_eq
    rw [← hthreshold] at ih ⊢
    exact hlast.sorted_after hb ih

/-- An entry that is used too often for the LFU half has been so ever since. -/
theorem not_rare_of_frequent (h : c.Chronicle l c') (hready : ∀ x ∈ l, x.Ready)
    (hadaptive : ∀ x ∈ l, ∃ a, x.cache.policy = .adaptive a) (howned : c.Owned) (howned' : c'.Owned)
    {threshold : Nat} (hsorted : c.Sorted threshold) (hsorted' : c'.Sorted threshold) {id : EntryId}
    (hid : id ∈ c.policy.idsOf .mfu) : id ∉ c'.policy.idsOf .lfu := by
  intro hid'
  obtain ⟨e, he, _⟩ := (howned.mem_ids_iff id).1 (Policy.mem_ids_of_idsOf hid)
  obtain ⟨e', he', _⟩ := (howned'.mem_ids_iff id).1 (Policy.mem_ids_of_idsOf hid')
  obtain ⟨e₀, he₀, hle⟩ := h.accesses_le hready (Register.lt_next_of_get? _ he) hadaptive e' he'
  -- it is the same entry, with at least as many uses
  obtain rfl := Option.some.inj (he.symm.trans he₀)
  have hfrequent : threshold < e.accesses := hsorted .mfu id hid e he
  have hrare : e'.accesses ≤ threshold := hsorted' .lfu id hid' e' he'
  omega

end Chronicle

end Cache

/-- The LFU pool has the entries that have been used up to so many times, and the MFU pool the others. -/
structure Adaptive.HoldsByUses (table : EntryTable κ) (a : Adaptive κ) : Prop where
  rare : ∀ id ∈ a.lfu.ids, ∃ e, table.get? id = some e ∧ e.accesses ≤ a.threshold
  frequent : ∀ id ∈ a.mfu.ids, ∃ e, table.get? id = some e ∧ a.threshold < e.accesses

namespace Cache

/-- Uses are counted, and exclusive entries are held by them. -/
structure FollowsUses (t : Tuning) (l : List (Asked κ)) (c : Cache κ) : Prop where
  uses : c.UsesAddUp l
  pools : ∃ a, c.policy = .adaptive a ∧ a.threshold = t.validated.threshold.toNat ∧
    a.HoldsByUses c.entries
  /-- What was in the MFU pool where something was asked for, before or after it, is not in the LFU pool. -/
  once_frequent : ∀ x ∈ l, ∀ id, id ∈ x.cache.policy.idsOf .mfu ∨ id ∈ x.after.policy.idsOf .mfu →
    id ∉ c.policy.idsOf .lfu

theorem Sorted.holdsByUses {c : Cache κ} {a : Adaptive κ} (h : c.Sorted a.threshold) (howned : c.Owned)
    (ha : c.policy = .adaptive a) : a.HoldsByUses c.entries := by
  have hheld : ∀ half, ∀ id ∈ c.policy.idsOf half, ∃ e, c.entries.get? id = some e ∧
      half.Suits a.threshold e.accesses := by
    intro half id hid
    obtain ⟨e, he, _⟩ := (howned.mem_ids_iff id).1 (Policy.mem_ids_of_idsOf hid)
    exact ⟨e, he, h half id hid e he⟩
  rw [ha] at hheld
  exact ⟨hheld .lfu, hheld .mfu⟩

theorem Chronicle.followsUses {c c' : Cache κ} {l : List (Asked κ)} {t : Tuning} (h : c.Chronicle l c')
    (hstart : c.policy = .newAdaptive t) (hempty : ∀ id, c.entries.get? id = none)
    (hready : ∀ x ∈ l, x.Ready) (howned : c'.Owned) : c'.FollowsUses t l where
  uses := h.usesAddUp hstart hempty hready
  pools := by
    obtain ⟨a, ha, hsound⟩ := h.sound hstart
    have hthreshold : a.threshold = t.validated.threshold.toNat := hsound.threshold_eq
    have hsorted := h.sorted hstart hready
    rw [← hthreshold] at hsorted
    exact ⟨a, ha, hthreshold, hsorted.holdsByUses howned ha⟩
  once_frequent := by
    intro x hx id hid
    have hsorted := h.sorted hstart hready
    have hadaptive := h.adaptive hstart
    -- the rest of the chronicle, from the operation on
    obtain ⟨before, after, rfl⟩ := List.append_of_mem hx
    obtain ⟨hbefore, hafter⟩ := h.split
    rw [List.forall_mem_append, List.forall_mem_cons] at hready hadaptive
    obtain ⟨hready₁, hasked, hready₂⟩ := hready
    obtain ⟨-, hlearns, hadaptive₂⟩ := hadaptive
    -- either way the rest of the chronicle starts where the entry is exclusive
    rcases hid with hid | hid
    · have hrest : x.cache.Chronicle (x :: after) c' := (Chronicle.start.ask x.op).trans hafter
      exact hrest.not_rare_of_frequent (List.forall_mem_cons.2 ⟨hasked, hready₂⟩)
        (List.forall_mem_cons.2 ⟨hlearns, hadaptive₂⟩) hasked.owned howned
        (hbefore.sorted hstart hready₁) hsorted hid
    · have huntil : ∀ y ∈ before ++ [x], y.Ready :=
        List.forall_mem_append.2 ⟨hready₁, List.forall_mem_singleton.2 hasked⟩
      exact hafter.not_rare_of_frequent hready₂ hadaptive₂ hasked.owned_after howned
        ((hbefore.ask x.op).sorted hstart huntil) hsorted hid

end Cache

namespace Session

/-- In every session of an adaptive cache, uses are counted all along, and exclusive entries are held by
them. -/
theorem uses_sort (setup : Setup κ) {tuning : Tuning} (htuned : setup.tuning = some tuning)
    (steps : List (Step κ)) (hsetup : setup.KeyDetermined)
    (hsteps : ∀ step ∈ steps, step.KeyDetermined) :
    (∃ l, ((start setup).runAll steps).ChronicledFrom (start setup).cache l ∧ ∀ x ∈ l, x.Ready) ∧
      ∀ l, ((start setup).runAll steps).ChronicledFrom (start setup).cache l → (∀ x ∈ l, x.Ready) →
        Throughout (fun l c => c.FollowsUses tuning l) l ((start setup).runAll steps).cache := by
  have hstart := policy_start htuned
  have hempty : ∀ id, (start setup).cache.entries.get? id = none := fun id => Register.get?_empty id
  refine ⟨exists_chronicle_of_keyDetermined setup steps hsetup hsteps, fun l hl hready => ?_⟩
  exact throughout_of_keyDetermined setup steps hsetup hsteps hl hready fun _ _ h hready howned =>
    h.followsUses hstart hempty hready howned

/-- Room for one exclusive entry in each pool, and ghosts of one. -/
def oneEach : Setup Nat where
  tuning := some { ghostCapacity := 1 }
  limits := { maxQueueEntries := 2 }

/-- The first value is evicted, and its key is remembered with one use when another value comes in under it.
The second one is probed. -/
def rememberedAndProbed : List (Step Nat) :=
  [.request (.put 1 { tag := "a", size := 10 } none none),
    .request (.put 2 { tag := "b", size := 10 } none none),
    .request (.put 1 { tag := "c", size := 10 } none none),
    .request (.probe 2)]

theorem uses_sort_rememberedAndProbed :
    (∃ l, ((start oneEach).runAll rememberedAndProbed).ChronicledFrom (start oneEach).cache l ∧
      Throughout (fun l c => c.FollowsUses { ghostCapacity := 1 } l) l
        ((start oneEach).runAll rememberedAndProbed).cache) ∧
      ((start oneEach).runAll rememberedAndProbed).cache.policy.pools.map Pool.ids = [[], [2, 1]] ∧
      ((start oneEach).runAll rememberedAndProbed).cache.entries.accesses 1 = 2 ∧
      ((start oneEach).runAll rememberedAndProbed).cache.entries.accesses 2 = 2 := by
  obtain ⟨⟨l, hl, hready⟩, hall⟩ := uses_sort oneEach rfl rememberedAndProbed (fun _ hr => nomatch hr)
    fun step hstep => by
      simp only [rememberedAndProbed, List.mem_cons, List.not_mem_nil, or_false] at hstep
      rcases hstep with rfl | rfl | rfl | rfl
      · trivial
      · trivial
      · trivial
      · trivial
  exact ⟨⟨l, hl, hall l hl hready⟩, by decide +kernel, by decide +kernel, by decide +kernel⟩

end Session

end RefCache
