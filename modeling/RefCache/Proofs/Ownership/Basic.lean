import RefCache.Cache.Operations
import RefCache.Proofs.Exclusive
import RefCache.Proofs.Rows

/-!
# Who owns the entries of a cache

The ownership invariant of a cache at rest: what is cached is in the table under its own key and is
no orphan, every other entry of the table is an orphan, and the exclusive entries are exactly the
cached ones without clients (`Cache.Owned`).

In the middle of an operation some entries have left the policy, or have lost their last client,
and wait for what the operation does with them. `OwnedExcept loose` is the invariant with these
entries listed in `loose`; every step of an operation is described by how it changes that list.

* `OwnedExcept.congr`  nothing that ownership depends on has changed
* `OwnedExcept.expel`  some keys leave the cache, and their entries become orphans
* `OwnedExcept.bringIn`  a new entry comes in, which nobody holds yet
-/

namespace RefCache

universe u

/-! ## How entries age -/

namespace Entry

variable {κ : Type u}

/-- The entry without the number of its uses. -/
def withoutUses (e : Entry κ) : Entry κ :=
  { e with accesses := 0 }

/-- The entry without the marks a cache leaves on it: its uses, and whether it is an orphan. -/
def withoutMarks (e : Entry κ) : Entry κ :=
  { e with orphan := false, accesses := 0 }

/-- Entries that differ in their uses alone agree on all that ownership depends on. -/
theorem eq_of_withoutUses {e e' : Entry κ} (h : e.withoutUses = e'.withoutUses) :
    e.key = e'.key ∧ e.size = e'.size ∧ e.orphan = e'.orphan ∧ e.clients = e'.clients :=
  ⟨(congrArg Entry.key h :), (congrArg Entry.size h :), (congrArg Entry.orphan h :),
    (congrArg Entry.clients h :)⟩

/-- Marks leave key, value, size and clients of an entry alone. -/
theorem eq_of_withoutMarks {e e' : Entry κ} (h : e.withoutMarks = e'.withoutMarks) :
    e.key = e'.key ∧ e.value = e'.value ∧ e.size = e'.size ∧ e.clients = e'.clients :=
  ⟨(congrArg Entry.key h :), (congrArg Entry.value h :), (congrArg Entry.size h :),
    (congrArg Entry.clients h :)⟩

/-- `e'` is `e` with more marks: an orphan stays an orphan, and uses only add up. -/
structure Ages (e e' : Entry κ) : Prop where
  same : e'.withoutMarks = e.withoutMarks
  orphan : e.orphan = true → e'.orphan = true
  accesses : e.accesses ≤ e'.accesses

theorem Ages.refl (e : Entry κ) : e.Ages e :=
  ⟨rfl, id, Nat.le_refl _⟩

theorem Ages.trans {e e' e'' : Entry κ} (h : e.Ages e') (h' : e'.Ages e'') : e.Ages e'' :=
  ⟨h'.same.trans h.same, h'.orphan ∘ h.orphan, Nat.le_trans h.accesses h'.accesses⟩

/-- Marks and clients have nothing to do with each other. -/
theorem Ages.addClient {e e' : Entry κ} (h : e.Ages e') : e.addClient.Ages e'.addClient :=
  ⟨congrArg Entry.addClient h.same, h.orphan, h.accesses⟩

theorem Ages.dropClient {e e' : Entry κ} (h : e.Ages e') : e.dropClient.Ages e'.dropClient :=
  ⟨congrArg Entry.dropClient h.same, h.orphan, h.accesses⟩

theorem ages_recordAccess (e : Entry κ) : e.Ages e.recordAccess :=
  ⟨rfl, id, Nat.le_succ _⟩

theorem ages_markOrphan (e : Entry κ) : e.Ages e.markOrphan :=
  ⟨rfl, fun _ => rfl, Nat.le_refl _⟩

end Entry

namespace EntryTable

variable {κ : Type u}

/-- The number of clients of an entry; none of an entry that is gone. -/
def clients (t : EntryTable κ) (id : EntryId) : Nat :=
  t.readout Entry.clients id

theorem clients_of_get? {t : EntryTable κ} {id : EntryId} {e : Entry κ} (h : t.get? id = some e) :
    t.clients id = e.clients :=
  t.readout_of_some Entry.clients h

/-- Two tables of the same entries that agree on everything but the number of their uses. -/
def SameButUses (t t' : EntryTable κ) : Prop :=
  ∀ id, (t'.get? id).map Entry.withoutUses = (t.get? id).map Entry.withoutUses

theorem SameButUses.refl (t : EntryTable κ) : t.SameButUses t :=
  fun _ => rfl

theorem SameButUses.symm {t t' : EntryTable κ} (h : t.SameButUses t') : t'.SameButUses t :=
  fun id => (h id).symm

/-- An entry of the one table has its counterpart in the other. -/
theorem SameButUses.get? {t t' : EntryTable κ} (h : t.SameButUses t') {id : EntryId}
    {e : Entry κ} (he : t.get? id = some e) :
    ∃ e', t'.get? id = some e' ∧ e'.withoutUses = e.withoutUses := by
  have hid := h id
  rw [he, Option.map_some] at hid
  exact Option.map_eq_some_iff.1 hid

theorem sameButUses_recordAccess (t : EntryTable κ) (id : EntryId) :
    t.SameButUses (t.update id Entry.recordAccess) := by
  intro j
  rw [Register.get?_update]
  split
  · rename_i hij
    rw [hij, Option.map_map]
    rfl
  · rfl

/-- The same entries, with more marks left on them. -/
structure Ages (t t' : EntryTable κ) : Prop where
  next_eq : t'.next = t.next
  later : ∀ id e, t.get? id = some e → ∃ e', t'.get? id = some e' ∧ e.Ages e'
  earlier : ∀ id e', t'.get? id = some e' → ∃ e, t.get? id = some e ∧ e.Ages e'

theorem Ages.refl (t : EntryTable κ) : t.Ages t :=
  ⟨rfl, fun _ e h => ⟨e, h, .refl e⟩, fun _ e h => ⟨e, h, .refl e⟩⟩

theorem Ages.trans {t t' t'' : EntryTable κ} (h : t.Ages t') (h' : t'.Ages t'') : t.Ages t'' where
  next_eq := h'.next_eq.trans h.next_eq
  later := by
    intro id e he
    obtain ⟨e', he', hage⟩ := h.later id e he
    obtain ⟨e'', he'', hage'⟩ := h'.later id e' he'
    exact ⟨e'', he'', hage.trans hage'⟩
  earlier := by
    intro id e'' he''
    obtain ⟨e', he', hage'⟩ := h'.earlier id e'' he''
    obtain ⟨e, he, hage⟩ := h.earlier id e' he'
    exact ⟨e, he, hage.trans hage'⟩

/-- Changes of one entry that agree up to marks, made to both tables. -/
theorem Ages.update {t t' : EntryTable κ} (h : t.Ages t') (id : EntryId)
    {change change' : Entry κ → Entry κ}
    (hchange : ∀ e e' : Entry κ, e.Ages e' → (change e).Ages (change' e')) :
    EntryTable.Ages (t.update id change) (t'.update id change') where
  next_eq := by rw [Register.next_update, Register.next_update, h.next_eq]
  later := by
    intro j e he
    rw [Register.get?_update] at he ⊢
    -- an entry that both tables change was of the same age before
    by_cases hj : id = j
    · rw [if_pos hj] at he ⊢
      obtain ⟨e₀, he₀, rfl⟩ := Option.map_eq_some_iff.1 he
      obtain ⟨e', he', hage⟩ := h.later id e₀ he₀
      exact ⟨change' e', by rw [he', Option.map_some], hchange e₀ e' hage⟩
    · rw [if_neg hj] at he ⊢
      exact h.later j e he
  earlier := by
    intro j e' he'
    rw [Register.get?_update] at he' ⊢
    by_cases hj : id = j
    · rw [if_pos hj] at he' ⊢
      obtain ⟨e₀', he₀', rfl⟩ := Option.map_eq_some_iff.1 he'
      obtain ⟨e, he, hage⟩ := h.earlier id e₀' he₀'
      exact ⟨change e, by rw [he, Option.map_some], hchange e e₀' hage⟩
    · rw [if_neg hj] at he' ⊢
      exact h.earlier j e' he'

/-- Leaving a mark on one entry lets the table age. -/
theorem ages_update (t : EntryTable κ) (id : EntryId) {change : Entry κ → Entry κ}
    (hchange : ∀ e : Entry κ, e.Ages (change e)) : EntryTable.Ages t (t.update id change) where
  next_eq := Register.next_update t id change
  later := by
    intro j e he
    rw [Register.get?_update]
    split
    · rename_i hij
      subst hij
      exact ⟨change e, by rw [he, Option.map_some], hchange e⟩
    · exact ⟨e, he, .refl e⟩
  earlier := by
    intro j e' he'
    rw [Register.get?_update] at he'
    split at he'
    · rename_i hij
      subst hij
      obtain ⟨e, he, rfl⟩ := Option.map_eq_some_iff.1 he'
      exact ⟨e, he, hchange e⟩
    · exact ⟨e', he', .refl e'⟩

/-- Entry by entry, a table in which several entries were marked as orphans. -/
theorem get?_foldl_markOrphan (table : EntryTable κ) (ids : List EntryId) (j : EntryId) :
    Register.get? (ids.foldl (fun table id => table.update id Entry.markOrphan) table) j
      = if j ∈ ids then (table.get? j).map Entry.markOrphan else table.get? j := by
  induction ids generalizing table with
  | nil => rfl
  | cons id rest ih =>
    rw [List.foldl_cons, ih, Register.get?_update]
    by_cases hj : id = j
    · subst hj
      -- to be marked twice is to be marked
      have htwice : ((table.get? id).map Entry.markOrphan).map Entry.markOrphan
          = (table.get? id).map Entry.markOrphan := by
        rw [Option.map_map]
        rfl
      rw [if_pos rfl, htwice, ite_self, if_pos List.mem_cons_self]
    · rw [if_neg hj]
      have hmem : j ∈ id :: rest ↔ j ∈ rest := by
        rw [List.mem_cons, or_iff_right (Ne.symm hj)]
      simp only [hmem]

theorem ages_foldl_markOrphan (table : EntryTable κ) (ids : List EntryId) :
    EntryTable.Ages table (ids.foldl (fun table id => table.update id Entry.markOrphan) table) := by
  induction ids generalizing table with
  | nil => exact .refl table
  | cons id rest ih => exact (EntryTable.ages_update table id Entry.ages_markOrphan).trans (ih _)

/-- A new entry may come with marks. -/
theorem Ages.add {t t' : EntryTable κ} (h : t.Ages t') {e e' : Entry κ} (he : e.Ages e') :
    EntryTable.Ages (t.add e) (t'.add e') where
  next_eq := by rw [Register.next_add, Register.next_add, h.next_eq]
  later := by
    intro j e₀ he₀
    rw [Register.get?_add] at he₀ ⊢
    rw [h.next_eq]
    by_cases hj : t.next = j
    · rw [if_pos hj] at he₀ ⊢
      exact ⟨e', rfl, Option.some.inj he₀ ▸ he⟩
    · rw [if_neg hj] at he₀ ⊢
      exact h.later j e₀ he₀
  earlier := by
    intro j e₀' he₀'
    rw [Register.get?_add] at he₀' ⊢
    rw [h.next_eq] at he₀'
    by_cases hj : t.next = j
    · rw [if_pos hj] at he₀' ⊢
      exact ⟨e, rfl, Option.some.inj he₀' ▸ he⟩
    · rw [if_neg hj] at he₀' ⊢
      exact h.earlier j e₀' he₀'

/-- What an entry is without its marks does not change when the table ages. -/
theorem Ages.withoutMarks_eq {t t' : EntryTable κ} (h : t.Ages t') (id : EntryId) :
    (t'.get? id).map Entry.withoutMarks = (t.get? id).map Entry.withoutMarks := by
  cases ht' : t'.get? id with
  | some e' =>
    obtain ⟨e, he, hage⟩ := h.earlier id e' ht'
    rw [he, Option.map_some, Option.map_some, hage.same]
  | none =>
    cases ht : t.get? id with
    | none => rfl
    | some e =>
      obtain ⟨e', he', _⟩ := h.later id e ht
      rw [ht'] at he'
      exact nomatch he'

/-- Marks say nothing about clients. -/
theorem Ages.clients_eq {t t' : EntryTable κ} (h : t.Ages t') (id : EntryId) :
    t'.clients id = t.clients id := by
  -- clients are no mark, so they can be read off an entry without its marks
  have hview : ∀ s : EntryTable κ,
      s.clients id = (((s.get? id).map Entry.withoutMarks).map Entry.clients).getD 0 := by
    intro s
    rw [Option.map_map]
    rfl
  rw [hview t', hview t, h.withoutMarks_eq]

/-- The table with a new entry, held by one client. -/
def enroll (t : EntryTable κ) (e : Entry κ) : EntryTable κ :=
  Register.update (t.add e) t.next Entry.addClient

/-! ## Clients of the entries -/

theorem clients_addClient {t : EntryTable κ} {id : EntryId} {e : Entry κ}
    {change : Entry κ → Entry κ} (he : t.get? id = some e)
    (h : (change e).clients = e.clients + 1) (j : EntryId) :
    EntryTable.clients (t.update id change) j = t.clients j + if id = j then 1 else 0 := by
  have hread := t.readout_update he change Entry.clients j
  rw [show EntryTable.clients (t.update id change) j = _ from hread, h]
  split
  · rename_i hj
    rw [← hj, clients_of_get? he]
  · rfl

theorem clients_dropClient (t : EntryTable κ) (id j : EntryId) :
    EntryTable.clients (t.update id Entry.dropClient) j = t.clients j - if id = j then 1 else 0 := by
  cases he : t.get? id with
  | some e =>
    have hread := t.readout_update he Entry.dropClient Entry.clients j
    rw [show EntryTable.clients (t.update id Entry.dropClient) j = _ from hread]
    split
    · rename_i hj
      rw [← hj, clients_of_get? he]
      rfl
    · rfl
  | none =>
    by_cases hj : id = j
    · subst hj
      simp [clients, Register.readout, Register.get?_update, he]
    · simp [clients, Register.readout, Register.get?_update, hj]

/-- Who has clients is in the table. -/
theorem exists_of_clients_pos {t : EntryTable κ} {id : EntryId} (h : 0 < t.clients id) :
    ∃ e, t.get? id = some e ∧ 0 < e.clients := by
  cases he : t.get? id with
  | none =>
    rw [clients, Register.readout_of_none _ Entry.clients he] at h
    exact absurd h (Nat.lt_irrefl 0)
  | some e =>
    rw [clients_of_get? he] at h
    exact ⟨e, rfl, h⟩

/-- A new entry comes with one client. -/
theorem clients_enroll (t : EntryTable κ) {e : Entry κ} (he : e.clients = 0) (j : EntryId) :
    (t.enroll e).clients j = if t.next = j then 1 else t.clients j := by
  have hnew : (t.add e).get? t.next = some e := by simp [Register.get?_add]
  have hfresh : t.clients t.next = 0 := Register.readout_of_none t Entry.clients t.get?_next
  -- the new number had no entry, hence no clients, before
  have hadd : ∀ i, EntryTable.clients (t.add e) i = t.clients i := by
    intro i
    have hread := t.readout_add e Entry.clients i
    rw [show EntryTable.clients (t.add e) i = _ from hread]
    split
    · rename_i hi
      rw [he, ← hi, hfresh]
    · rfl
  rw [enroll, clients_addClient hnew rfl, hadd]
  by_cases hj : t.next = j
  · rw [if_pos hj, if_pos hj, ← hj, hfresh]
  · rw [if_neg hj, if_neg hj, Nat.add_zero]

end EntryTable

/-! ## The invariant -/

namespace Cache

variable {κ : Type u} [Key κ]

/-- No client holds the entry of a row. -/
def idle (c : Cache κ) (x : κ × Sized EntryId) : Bool :=
  c.entries.clients x.2.value = 0

/-- Every entry is owned as it should be, except that the entries of the rows `loose` are cached
and without clients but not with the policy. -/
structure OwnedExcept (c : Cache κ) (loose : List (κ × Sized EntryId)) : Prop where
  /-- What is cached is in the table, under its own key and with its own size, and no orphan. -/
  entry_of_cached : ∀ x ∈ c.cached.toList, ∃ e, c.entries.get? x.2.value = some e ∧
    e.key = x.1 ∧ e.size = x.2.size ∧ e.orphan = false
  /-- What is no orphan is cached. -/
  cached_of_entry : ∀ id e, c.entries.get? id = some e → e.orphan = false →
    (e.key, ⟨id, e.size⟩) ∈ c.cached.toList
  /-- The cached entries without clients are the exclusive ones. -/
  idle_perm : (c.cached.toList.filter c.idle).Perm (loose ++ c.policy.items)

/-- The cached rows of entries in use. -/
def busy (c : Cache κ) : List (κ × Sized EntryId) :=
  c.cached.toList.filter fun x => !c.idle x

/-- Every entry is owned as it should be. -/
abbrev Owned (c : Cache κ) : Prop :=
  c.OwnedExcept []

namespace OwnedExcept

variable {c c' : Cache κ} {loose loose' : List (κ × Sized EntryId)}

/-! ### What follows at once -/

/-- An exclusive entry is cached, and no client holds it. -/
theorem mem_idle (h : c.OwnedExcept loose) {x : κ × Sized EntryId}
    (hx : x ∈ loose ++ c.policy.items) : x ∈ c.cached.toList ∧ c.entries.clients x.2.value = 0 := by
  have hmem := List.mem_filter.1 (h.idle_perm.mem_iff.2 hx)
  exact ⟨hmem.1, of_decide_eq_true hmem.2⟩

theorem cached_of_item (h : c.OwnedExcept loose) {x : κ × Sized EntryId}
    (hx : x ∈ c.policy.items) : x ∈ c.cached.toList :=
  (h.mem_idle (List.mem_append_right _ hx)).1

/-- What the policy has under a key is what is cached there, if no client holds it. -/
theorem remove_eq_some_iff (h : c.Owned) {k : κ} {id : EntryId} :
    (c.policy.remove k).1 = some id ↔ c.cached.get? k = some id ∧ c.entries.clients id = 0 := by
  constructor
  · intro hfound
    obtain ⟨size, hmem⟩ := c.policy.mem_items_of_remove k id hfound
    obtain ⟨hcached, hzero⟩ := h.mem_idle (List.mem_append_right _ hmem)
    exact ⟨(c.cached.get?_eq_some_iff k id).2 ⟨size, hcached⟩, hzero⟩
  · rintro ⟨hget, hzero⟩
    obtain ⟨size, hcached⟩ := (c.cached.get?_eq_some_iff k id).1 hget
    have hitem : (k, ⟨id, size⟩) ∈ c.policy.items :=
      h.idle_perm.mem_iff.1 (List.mem_filter.2 ⟨hcached, decide_eq_true hzero⟩)
    cases hfound : (c.policy.remove k).1 with
    | none => exact absurd rfl ((c.policy.remove_eq_none_iff k).1 hfound _ hitem)
    | some id' =>
      -- no other entry is cached under the key
      obtain ⟨size', hmem'⟩ := c.policy.mem_items_of_remove k id' hfound
      have hsame := c.cached.eq_of_mem_toList (h.cached_of_item hmem') hcached
      exact congrArg (fun a : Sized EntryId => some a.value) hsame

/-- No key occurs twice among the entries without clients. -/
theorem nodup_keys (h : c.OwnedExcept loose) : ((loose ++ c.policy.items).map Prod.fst).Nodup := by
  rw [← (h.idle_perm.map Prod.fst).nodup_iff]
  exact c.cached.nodup_keys.sublist (List.filter_sublist.map _)

theorem nodup_item_keys (h : c.OwnedExcept loose) : (c.policy.items.map Prod.fst).Nodup := by
  have hnodup := h.nodup_keys
  rw [List.map_append] at hnodup
  exact (List.nodup_append.1 hnodup).2.1

/-- An entry stands under one key only, so two cached rows of one entry are the same. -/
theorem eq_of_same_entry (h : c.OwnedExcept loose) {x y : κ × Sized EntryId}
    (hx : x ∈ c.cached.toList) (hy : y ∈ c.cached.toList) (hid : x.2.value = y.2.value) : x = y := by
  obtain ⟨e, he, hkey, _⟩ := h.entry_of_cached x hx
  obtain ⟨e', he', hkey', _⟩ := h.entry_of_cached y hy
  rw [hid, he', Option.some.injEq] at he
  subst he
  have hkeys : x.1 = y.1 := hkey.symm.trans hkey'
  exact Prod.ext hkeys (c.cached.eq_of_mem_toList hx (hkeys ▸ hy))

/-- As long as a cached entry is held, nothing exclusive has its key. -/
theorem not_item_of_held (h : c.OwnedExcept loose) {id : EntryId} {e : Entry κ}
    (he : c.entries.get? id = some e) (hclients : 0 < e.clients)
    (hmem : (e.key, ⟨id, e.size⟩) ∈ c.cached.toList) : ∀ x ∈ c.policy.items, x.1 ≠ e.key := by
  intro x hx hkey
  obtain ⟨hxmem, hzero⟩ := h.mem_idle (List.mem_append_right _ hx)
  have hx' : (e.key, x.2) ∈ c.cached.toList := hkey ▸ hxmem
  rw [c.cached.eq_of_mem_toList hx' hmem, EntryTable.clients_of_get? he] at hzero
  omega

/-- A cached entry is in use, loose or exclusive. -/
theorem cached_perm (h : c.OwnedExcept loose) :
    c.cached.toList.Perm (c.busy ++ (loose ++ c.policy.items)) := by
  have hsplit := List.filter_append_perm c.idle c.cached.toList
  exact hsplit.symm.trans (List.perm_append_comm.trans (h.idle_perm.append_left c.busy))

theorem count_eq (h : c.OwnedExcept loose) :
    c.count = c.busy.length + (loose.length + c.policy.count) := by
  rw [count, ← SizedMap.length_toList, h.cached_perm.length_eq, List.length_append,
    List.length_append, c.policy.count_eq_length]

theorem size_eq (h : c.OwnedExcept loose) :
    c.size = totalOf (fun x => x.2.size) c.busy
      + (totalOf (fun x => x.2.size) loose + c.policy.size) := by
  rw [size, SizedMap.totalSize_eq_totalOf, totalOf_perm _ h.cached_perm, totalOf_append,
    totalOf_append, c.policy.size_eq_totalOf]

/-- What the policy keeps is part of what is cached. -/
theorem policy_count_le (h : c.OwnedExcept loose) : c.policy.count ≤ c.cached.count := by
  have hcount := h.count_eq
  rw [count] at hcount
  omega

theorem policy_size_le (h : c.OwnedExcept loose) : c.policy.size ≤ c.cached.totalSize := by
  have hsize := h.size_eq
  rw [size] at hsize
  omega

/-- What counts as in use are the entries with clients. -/
theorem inUseCount_eq (h : c.Owned) : c.inUseCount = c.busy.length := by
  have hcount := h.count_eq
  rw [count, List.length_nil] at hcount
  rw [inUseCount, wordSub_of_le h.policy_count_le, hcount]
  omega

theorem inUseSize_eq (h : c.Owned) : c.inUseSize = totalOf (fun x => x.2.size) c.busy := by
  have hsize := h.size_eq
  rw [size, totalOf_nil] at hsize
  rw [inUseSize, wordSub_of_le h.policy_size_le, hsize]
  omega

/-! ### Steps -/

/-- A step that changes nothing but uses, and moves entries within the policy or between the policy
and `loose`, keeps the invariant. -/
theorem congr (h : c.OwnedExcept loose) (hcached : c'.cached.toList = c.cached.toList)
    (hentries : c.entries.SameButUses c'.entries)
    (hitems : (loose ++ c.policy.items).Perm (loose' ++ c'.policy.items)) :
    c'.OwnedExcept loose' where
  entry_of_cached := by
    intro x hx
    obtain ⟨e, he, hkey, hsize, horphan⟩ := h.entry_of_cached x (hcached ▸ hx)
    obtain ⟨e', he', heq⟩ := hentries.get? he
    obtain ⟨hkey', hsize', horphan', _⟩ := Entry.eq_of_withoutUses heq
    exact ⟨e', he', hkey'.trans hkey, hsize'.trans hsize, horphan'.trans horphan⟩
  cached_of_entry := by
    intro id e' he' horphan
    obtain ⟨e, he, heq⟩ := hentries.symm.get? he'
    obtain ⟨hkey, hsize, horphan', _⟩ := Entry.eq_of_withoutUses heq
    rw [hcached, ← hkey, ← hsize]
    exact h.cached_of_entry id e he (horphan'.trans horphan)
  idle_perm := by
    -- uses do not show in the clients
    have hidle : c'.idle = c.idle := by
      funext x
      have hview : ∀ t : EntryTable κ, t.clients x.2.value
          = (((t.get? x.2.value).map Entry.withoutUses).map Entry.clients).getD 0 := by
        intro t
        rw [Option.map_map]
        rfl
      rw [idle, idle, hview c'.entries, hview c.entries, hentries]
    rw [hcached, hidle]
    exact h.idle_perm.trans hitems

/-- Some keys leave the cache: what was cached under them becomes an orphan, and the policy lets go
of them. -/
theorem expel (h : c.OwnedExcept loose) (gone : κ → Bool) (ids : List EntryId)
    (hcached : c'.cached.toList = c.cached.toList.filter fun x => !gone x.1)
    (hids : ∀ id, id ∈ ids ↔ ∃ x ∈ c.cached.toList, gone x.1 = true ∧ x.2.value = id)
    (hentries : ∀ id, c'.entries.get? id
      = if id ∈ ids then (c.entries.get? id).map Entry.markOrphan else c.entries.get? id)
    (hitems : ((loose ++ c.policy.items).filter fun x => !gone x.1).Perm
      (loose' ++ c'.policy.items)) :
    c'.OwnedExcept loose' where
  entry_of_cached := by
    intro x hx
    rw [hcached, List.mem_filter] at hx
    -- what stays shares no entry with what leaves
    have hnot : x.2.value ∉ ids := by
      intro hmem
      obtain ⟨y, hy, hgone, hval⟩ := (hids _).1 hmem
      rw [h.eq_of_same_entry hy hx.1 hval] at hgone
      simp [hgone] at hx
    rw [hentries, if_neg hnot]
    exact h.entry_of_cached x hx.1
  cached_of_entry := by
    intro id e he horphan
    rw [hentries] at he
    split at he
    · obtain ⟨e₀, _, rfl⟩ := Option.map_eq_some_iff.1 he
      exact nomatch horphan
    · rename_i hnot
      -- an entry that is not marked is still under a key that stays
      have hmem := h.cached_of_entry id e he horphan
      rw [hcached, List.mem_filter]
      refine ⟨hmem, ?_⟩
      cases hg : gone e.key with
      | false => rfl
      | true => exact absurd ((hids id).2 ⟨_, hmem, hg, rfl⟩) hnot
  idle_perm := by
    -- a mark as an orphan does not show in the clients
    have hidle : c'.idle = c.idle := by
      funext x
      rw [idle, idle, EntryTable.clients, EntryTable.clients, Register.readout, Register.readout,
        hentries]
      split
      · rw [Option.map_map]
        rfl
      · rfl
    rw [hcached, hidle, List.filter_filter]
    -- the idle rows of the keys that stay are the rest of the idle rows
    have hcomm : (c.cached.toList.filter fun x => c.idle x && !gone x.1)
        = (c.cached.toList.filter c.idle).filter fun x => !gone x.1 := by
      rw [List.filter_filter]
      exact List.filter_congr fun x _ => Bool.and_comm _ _
    rw [hcomm]
    exact (h.idle_perm.filter _).trans hitems

/-- A new entry comes in under a key that is not cached. Nobody holds it, so it counts as loose. -/
theorem bringIn (h : c.OwnedExcept loose) {e : Entry κ} (horphan : e.orphan = false)
    (hclients : e.clients = 0)
    (hcached : c'.cached.toList = c.cached.toList ++ [(e.key, ⟨c.entries.next, e.size⟩)])
    (hentries : c'.entries = c.entries.add e) (hitems : c'.policy.items = c.policy.items) :
    c'.OwnedExcept ((e.key, ⟨c.entries.next, e.size⟩) :: loose) where
  entry_of_cached := by
    intro x hx
    rw [hentries, Register.get?_add]
    rw [hcached, List.mem_append, List.mem_singleton] at hx
    rcases hx with hx | rfl
    · obtain ⟨e₀, he₀, hrest⟩ := h.entry_of_cached x hx
      have hlt := c.entries.lt_next_of_get? he₀
      exact ⟨e₀, by rw [if_neg (by omega), he₀], hrest⟩
    · exact ⟨e, by rw [if_pos rfl], rfl, rfl, horphan⟩
  cached_of_entry := by
    intro id e' he' horphan'
    rw [hentries, Register.get?_add] at he'
    rw [hcached]
    split at he'
    · rename_i hid
      cases he'
      exact List.mem_append_right _ (List.mem_singleton.2 (by rw [hid]))
    · exact List.mem_append_left _ (h.cached_of_entry id e' he' horphan')
  idle_perm := by
    -- the number of the new entry is above all that are cached
    have hold : c.cached.toList.filter c'.idle = c.cached.toList.filter c.idle := by
      refine List.filter_congr fun x hx => ?_
      obtain ⟨e₀, he₀, _⟩ := h.entry_of_cached x hx
      have hlt := c.entries.lt_next_of_get? he₀
      rw [idle, idle, EntryTable.clients, EntryTable.clients, hentries, Register.readout_add,
        if_neg (by omega)]
    have hnew : c'.idle (e.key, ⟨c.entries.next, e.size⟩) = true := by
      have hget : c'.entries.get? c.entries.next = some e := by
        rw [hentries, Register.get?_add, if_pos rfl]
      rw [idle, EntryTable.clients_of_get? hget, hclients]
      rfl
    rw [hcached, List.filter_append, hold, List.filter_cons_of_pos hnew, hitems]
    exact List.perm_append_singleton _ _ |>.trans (h.idle_perm.cons _)

/-- One entry gets or loses clients. -/
theorem update (h : c.OwnedExcept loose) {id : EntryId} {e : Entry κ}
    (he : c.entries.get? id = some e) (change : Entry κ → Entry κ)
    (hkey : (change e).key = e.key) (hsize : (change e).size = e.size)
    (horphan : (change e).orphan = e.orphan)
    (hcached : c'.cached.toList = c.cached.toList)
    (hentries : c'.entries = c.entries.update id change)
    (hidle : (c.cached.toList.filter c'.idle).Perm (loose' ++ c'.policy.items)) :
    c'.OwnedExcept loose' where
  entry_of_cached := by
    intro x hx
    obtain ⟨e₀, he₀, hkey₀, hsize₀, horphan₀⟩ := h.entry_of_cached x (hcached ▸ hx)
    rw [hentries, Register.get?_update]
    split
    · -- the changed entry keeps key, size and mark
      rename_i hid
      rw [← hid, he, Option.some.injEq] at he₀
      subst he₀
      exact ⟨change e, by rw [he, Option.map_some], hkey.trans hkey₀, hsize.trans hsize₀,
        horphan.trans horphan₀⟩
    · exact ⟨e₀, he₀, hkey₀, hsize₀, horphan₀⟩
  cached_of_entry := by
    intro j e' he' horphan'
    rw [hentries, Register.get?_update] at he'
    rw [hcached]
    split at he'
    · rename_i hid
      rw [he, Option.map_some, Option.some.injEq] at he'
      subst he' hid
      rw [hkey, hsize]
      exact h.cached_of_entry id e he (horphan.symm.trans horphan')
    · exact h.cached_of_entry j e' he' horphan'
  idle_perm := by
    rw [hcached]
    exact hidle

end OwnedExcept

end Cache

end RefCache
