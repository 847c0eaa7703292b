import RefCache.Proofs.Ownership.Operations

/-!
# What becomes of a cache

A cache is asked one operation after another, and in between it forgets entries that it does not refer
to any more; when nobody shares its state, it is torn down. `Cache.Trace c ops c'` says that `c` has
become `c'` in this way, with the operations `ops` in their order.

* `Trace.owned`: the ownership of entries is kept
* `Trace.evolves`: entries keep key, value, size and observer, an orphan stays an orphan, and a number that was
  given out never comes to stand for another entry
-/

namespace RefCache

universe u

/-! ## What becomes of entries -/

/-- `e'` is what has become of `e`. -/
structure Entry.Becomes {κ : Type u} (e e' : Entry κ) : Prop where
  key_eq : e'.key = e.key
  value_eq : e'.value = e.value
  size_eq : e'.size = e.size
  observer_eq : e'.observer = e.observer
  orphan : e.orphan = true → e'.orphan = true

theorem Entry.Becomes.refl {κ : Type u} (e : Entry κ) : e.Becomes e :=
  ⟨rfl, rfl, rfl, rfl, id⟩

theorem Entry.Becomes.trans {κ : Type u} {e e' e'' : Entry κ} (h : e.Becomes e')
    (h' : e'.Becomes e'') : e.Becomes e'' :=
  ⟨h'.key_eq.trans h.key_eq, h'.value_eq.trans h.value_eq, h'.size_eq.trans h.size_eq,
    h'.observer_eq.trans h.observer_eq, h'.orphan ∘ h.orphan⟩

theorem Entry.becomes_addClient {κ : Type u} (e : Entry κ) : e.Becomes e.addClient :=
  ⟨rfl, rfl, rfl, rfl, id⟩

theorem Entry.becomes_dropClient {κ : Type u} (e : Entry κ) : e.Becomes e.dropClient :=
  ⟨rfl, rfl, rfl, rfl, id⟩

/-- Entries come in under new numbers, and go; those that stay are what has become of them. -/
structure EntryTable.Evolves {κ : Type u} (t t' : EntryTable κ) : Prop where
  next_le : t.next ≤ t'.next
  earlier : ∀ id e', id < t.next → t'.get? id = some e' → ∃ e, t.get? id = some e ∧ e.Becomes e'

namespace EntryTable

variable {κ : Type u} {t t' t'' : EntryTable κ}

theorem Evolves.refl (t : EntryTable κ) : t.Evolves t :=
  ⟨Nat.le_refl _, fun _ e' _ he' => ⟨e', he', .refl e'⟩⟩

theorem Evolves.trans (h : t.Evolves t') (h' : t'.Evolves t'') : t.Evolves t'' where
  next_le := Nat.le_trans h.next_le h'.next_le
  earlier := by
    intro id e'' hid he''
    obtain ⟨e', he', hbecomes'⟩ := h'.earlier id e'' (Nat.lt_of_lt_of_le hid h.next_le) he''
    obtain ⟨e, he, hbecomes⟩ := h.earlier id e' hid he'
    exact ⟨e, he, hbecomes.trans hbecomes'⟩

theorem Ages.evolves (h : t.Ages t') : t.Evolves t' where
  next_le := Nat.le_of_eq h.next_eq.symm
  earlier := by
    intro id e' _ he'
    obtain ⟨e, he, hage⟩ := h.earlier id e' he'
    obtain ⟨hkey, hvalue, hsize, _⟩ := Entry.eq_of_withoutMarks hage.same
    exact ⟨e, he, hkey, hvalue, hsize, (congrArg Entry.observer hage.same :), hage.orphan⟩

/-- Clients come and go. -/
theorem evolves_update (t : EntryTable κ) (id : EntryId) {change : Entry κ → Entry κ}
    (hchange : ∀ e : Entry κ, e.Becomes (change e)) : EntryTable.Evolves t (t.update id change) where
  next_le := Nat.le_of_eq (Register.next_update t id change).symm
  earlier := by
    intro j e' _ he'
    rw [Register.get?_update] at he'
    split at he'
    · rename_i hj
      obtain ⟨e, he, rfl⟩ := Option.map_eq_some_iff.1 he'
      exact ⟨e, hj ▸ he, hchange e⟩
    · exact ⟨e', he', .refl e'⟩

theorem evolves_add (t : EntryTable κ) (e : Entry κ) : EntryTable.Evolves t (t.add e) where
  next_le := Nat.le_succ _
  earlier := by
    intro id e' hid he'
    rw [Register.get?_add, if_neg (Nat.ne_of_gt hid)] at he'
    exact ⟨e', he', .refl e'⟩

theorem evolves_enroll (t : EntryTable κ) (e : Entry κ) : t.Evolves (t.enroll e) :=
  (evolves_add t e).trans (evolves_update _ _ Entry.becomes_addClient)

theorem evolves_remove (t : EntryTable κ) (id : EntryId) : EntryTable.Evolves t (t.remove id) where
  next_le := Nat.le_refl _
  earlier := by
    intro j e' _ he'
    rw [Register.get?_remove] at he'
    split at he'
    · exact nomatch he'
    · exact ⟨e', he', .refl e'⟩

end EntryTable

namespace Cache

variable {κ : Type u} [Key κ]

theorem evolves_tableAfter (c : Cache κ) (op : Operation κ) :
    c.entries.Evolves (c.tableAfter op) := by
  unfold tableAfter
  split
  · split
    · exact .refl _
    · exact EntryTable.evolves_enroll _ _
  · split
    · exact .refl _
    · exact EntryTable.evolves_update _ _ Entry.becomes_addClient
  · exact EntryTable.evolves_update _ _ Entry.becomes_dropClient
  · exact .refl _

/-! ## Between operations -/

/-- The cache without an entry that it does not refer to. -/
def forget (c : Cache κ) (id : EntryId) : Cache κ :=
  { c with entries := c.entries.remove id }

/-- The cache once nobody shares its state: nothing is cached, and no entry is left. -/
def tornDown (c : Cache κ) (entries : EntryTable κ) : Cache κ :=
  { c with cached := .empty, policy := c.policy.emptied, entries := entries }

/-- An entry that the cache does not refer to has no clients and is not cached. -/
theorem of_not_refersTo {c : Cache κ} {id : EntryId} {e : Entry κ} (h : c.refersTo id = false)
    (he : c.entries.get? id = some e) : e.clients = 0 ∧ c.cached.get? e.key ≠ some id := by
  rw [refersTo, he] at h
  simp only [Bool.or_eq_false_iff, decide_eq_false_iff_not] at h
  exact ⟨Nat.eq_zero_of_not_pos h.1.1, h.1.2⟩

theorem owned_forget {c : Cache κ} (h : c.Owned) {id : EntryId} (hid : c.refersTo id = false) :
    (c.forget id).Owned := by
  -- the cache refers to what it has cached
  have hother : ∀ x ∈ c.cached.toList, id ≠ x.2.value := by
    rintro x hx rfl
    obtain ⟨e, he, hkey, _⟩ := h.entry_of_cached x hx
    refine (of_not_refersTo hid he).2 ?_
    rw [hkey]
    exact (c.cached.get?_eq_some_iff _ _).2 ⟨x.2.size, hx⟩
  constructor
  · intro x hx
    show ∃ e, (c.entries.remove id).get? x.2.value = some e ∧ _
    rw [Register.get?_remove, if_neg (hother x hx)]
    exact h.entry_of_cached x hx
  · intro j e he horphan
    change (c.entries.remove id).get? j = some e at he
    rw [Register.get?_remove] at he
    split at he
    · exact nomatch he
    · exact h.cached_of_entry j e he horphan
  · have hidle : c.cached.toList.filter (c.forget id).idle = c.cached.toList.filter c.idle := by
      refine List.filter_congr fun x hx => ?_
      rw [idle, idle, EntryTable.clients, EntryTable.clients]
      show decide ((c.entries.remove id).readout Entry.clients _ = 0) = _
      rw [Register.readout_remove, if_neg (hother x hx)]
    exact hidle ▸ h.idle_perm

theorem owned_tornDown (c : Cache κ) {entries : EntryTable κ}
    (hnone : ∀ id, entries.get? id = none) : (c.tornDown entries).Owned where
  entry_of_cached := fun _ hx => nomatch hx
  cached_of_entry := by
    intro id e he
    change entries.get? id = some e at he
    rw [hnone] at he
    exact nomatch he
  idle_perm := by
    show ([] : List (κ × Sized EntryId)).Perm c.policy.emptied.items
    rw [Policy.items_emptied]

/-! ## Traces -/

/-- A cache becomes another one by operations, each of which may be asked where it is. -/
inductive Trace (c : Cache κ) : List (Operation κ) → Cache κ → Prop where
  | start : Trace c [] c
  | perform {ops : List (Operation κ)} {c' : Cache κ} {op : Operation κ} {keepers : List EntryId}
      (before : Trace c ops c') (determined : op.KeyDetermined) (kept : c'.KeepsOrphans keepers)
      (accepts : c'.Accepts keepers op) : Trace c (ops ++ [op]) (c'.apply op).cache
  | forget {ops : List (Operation κ)} {c' : Cache κ} {id : EntryId}
      (before : Trace c ops c') (gone : c'.refersTo id = false) : Trace c ops (c'.forget id)
  | tearDown {ops : List (Operation κ)} {c' : Cache κ} {entries : EntryTable κ}
      (before : Trace c ops c') (none_left : ∀ id, entries.get? id = none)
      (next_eq : entries.next = c'.entries.next) : Trace c ops (c'.tornDown entries)

namespace Trace

variable {c c' c'' : Cache κ} {ops ops' : List (Operation κ)}

theorem trans (h : c.Trace ops c') (h' : c'.Trace ops' c'') : c.Trace (ops ++ ops') c'' := by
  induction h' with
  | start => exact (List.append_nil ops).symm ▸ h
  | perform _ determined kept accepts ih =>
    rw [← List.append_assoc]
    exact ih.perform determined kept accepts
  | forget _ gone ih => exact ih.forget gone
  | tearDown _ none_left next_eq ih => exact ih.tearDown none_left next_eq

/-- Whatever becomes of a cache, its entries are owned as they should be. -/
theorem owned (h : c.Trace ops c') (hc : c.Owned) : c'.Owned := by
  induction h with
  | start => exact hc
  | perform _ determined kept accepts ih => exact (apply_orderly ih kept determined accepts).owned
  | forget _ gone ih => exact owned_forget ih gone
  | tearDown _ none_left _ _ => exact owned_tornDown _ none_left

theorem evolves (h : c.Trace ops c') (hc : c.Owned) : c.entries.Evolves c'.entries := by
  induction h with
  | start => exact .refl _
  | perform before determined kept accepts ih =>
    have horderly := apply_orderly (before.owned hc) kept determined accepts
    exact (ih.trans (evolves_tableAfter _ _)).trans horderly.marks.evolves
  | forget _ _ ih => exact ih.trans (EntryTable.evolves_remove _ _)
  | tearDown _ none_left next_eq ih =>
    refine ih.trans ⟨Nat.le_of_eq next_eq.symm, fun id e' _ he' => ?_⟩
    have hnone : some e' = none := he'.symm.trans (none_left id)
    exact nomatch hnone

/-- Without operations nothing has to be known of the cache for that. -/
theorem evolves_of_nil (h : c.Trace [] c') : c.entries.Evolves c'.entries := by
  generalize hops : ([] : List (Operation κ)) = ops at h
  induction h with
  | start => exact .refl _
  | perform => simp at hops
  | forget _ _ ih => exact (ih hops).trans (EntryTable.evolves_remove _ _)
  | tearDown _ none_left next_eq ih =>
    refine (ih hops).trans ⟨Nat.le_of_eq next_eq.symm, fun id e' _ he' => ?_⟩
    have hnone : some e' = none := he'.symm.trans (none_left id)
    exact nomatch hnone

end Trace

end Cache

end RefCache
