import RefCache.Key
import RefCache.Register

/-!
# Counting the rows of a search tree

Whoever is held by others is counted by its holders, and the holders are rows of search trees:
names of references and of handles, clients, entries. `rowCount m p` is the number of rows of `m`
whose value passes the test `p`.

* `rowCount_insert` / `rowCount_erase`: what one change does to the number of rows
* `rowCount_congr`: rows that a test cannot tell apart count the same
-/

namespace RefCache

universe u v w

section Rows

variable {κ : Type u} [Key κ] {α : Type v} {β : Type w}

/-- The number of rows whose value passes the test. -/
def rowCount (m : Std.TreeMap κ α) (p : α → Bool) : Nat :=
  m.toList.countP fun row => p row.2

/-- No row is listed twice. -/
private theorem nodup_rows (m : Std.TreeMap κ α) : m.toList.Nodup :=
  m.distinct_keys_toList.imp fun hne heq => hne (by rw [heq]; exact Std.ReflCmp.compare_self)

/-- A row that is there can be listed first, before the tree without it. -/
private theorem rows_perm_erase (m : Std.TreeMap κ α) (k : κ) (a : α) (h : m[k]? = some a) :
    m.toList.Perm ((k, a) :: (m.erase k).toList) := by
  have hnot : (k, a) ∉ (m.erase k).toList := by
    simp [Std.TreeMap.mem_toList_iff_getElem?_eq_some]
  refine (List.perm_ext_iff_of_nodup (nodup_rows m)
    (List.nodup_cons.2 ⟨hnot, nodup_rows _⟩)).2 ?_
  rintro ⟨k', b⟩
  simp only [List.mem_cons, Prod.mk.injEq, Std.TreeMap.mem_toList_iff_getElem?_eq_some,
    Std.TreeMap.getElem?_erase, Std.compare_eq_iff_eq]
  by_cases hk : k = k'
  · subst hk
    simp [h, eq_comm]
  · simp [hk, Ne.symm hk]

@[simp] theorem rowCount_empty (p : α → Bool) : rowCount (∅ : Std.TreeMap κ α) p = 0 := rfl

/-- Taking a row away takes it off the count. -/
theorem rowCount_erase (m : Std.TreeMap κ α) (k : κ) (a : α) (p : α → Bool)
    (h : m[k]? = some a) :
    rowCount m p = rowCount (m.erase k) p + if p a then 1 else 0 := by
  rw [rowCount, (rows_perm_erase m k a h).countP_eq, List.countP_cons]
  rfl

/-- The rows of a tree are what looking up finds, in whatever order. -/
private theorem rowCount_eq_of_getElem?_eq (m m' : Std.TreeMap κ α) (p : α → Bool)
    (h : ∀ k : κ, m[k]? = m'[k]?) : rowCount m p = rowCount m' p := by
  have hperm : m.toList.Perm m'.toList := by
    refine (List.perm_ext_iff_of_nodup (nodup_rows m) (nodup_rows m')).2 ?_
    rintro ⟨k, a⟩
    rw [Std.TreeMap.mem_toList_iff_getElem?_eq_some, Std.TreeMap.mem_toList_iff_getElem?_eq_some, h]
  exact hperm.countP_eq _

/-- A new row takes the place of the one that was there under its key. -/
theorem rowCount_insert (m : Std.TreeMap κ α) (k : κ) (a : α) (p : α → Bool) :
    rowCount (m.insert k a) p = rowCount (m.erase k) p + if p a then 1 else 0 := by
  have hget : (m.insert k a)[k]? = some a := by simp
  have hsame : rowCount ((m.insert k a).erase k) p = rowCount (m.erase k) p := by
    refine rowCount_eq_of_getElem?_eq _ _ p fun k' => ?_
    simp only [Std.TreeMap.getElem?_erase, Std.TreeMap.getElem?_insert, Std.compare_eq_iff_eq]
    by_cases hk : k = k' <;> simp [hk]
  rw [rowCount_erase _ k a p hget, hsame]

/-- Erasing a key without a row changes no count. -/
theorem rowCount_erase_of_none (m : Std.TreeMap κ α) (k : κ) (p : α → Bool) (h : m[k]? = none) :
    rowCount (m.erase k) p = rowCount m p := by
  refine rowCount_eq_of_getElem?_eq _ _ p fun k' => ?_
  simp only [Std.TreeMap.getElem?_erase, Std.compare_eq_iff_eq]
  by_cases hk : k = k'
  · subst hk
    simp [h]
  · simp [hk]

/-- The row under a key, if there is one, counts for itself. -/
theorem rowCount_eq_erase_add (m : Std.TreeMap κ α) (k : κ) (p : α → Bool) :
    rowCount m p = rowCount (m.erase k) p + m[k]?.toList.countP p := by
  cases h : m[k]? with
  | none =>
    rw [rowCount_erase_of_none m k p h]
    rfl
  | some a =>
    rw [rowCount_erase m k a p h, Option.toList_some, List.countP_cons, List.countP_nil, Nat.zero_add]

/-- Two trees whose rows show the same, key by key, have the same number of rows for every test of
what they show. -/
theorem rowCount_congr (m m' : Std.TreeMap κ α) (view : α → β) (p : β → Bool)
    (h : ∀ k : κ, m[k]?.map view = m'[k]?.map view) :
    rowCount m (fun a => p (view a)) = rowCount m' (fun a => p (view a)) := by
  -- a row of the view is what looking up shows
  have hmem : ∀ (n : Std.TreeMap κ α) (k : κ) (b : β),
      (k, b) ∈ n.toList.map (fun row => (row.1, view row.2)) ↔ n[k]?.map view = some b := by
    intro n k b
    simp only [List.mem_map, Prod.mk.injEq, Prod.exists, Option.map_eq_some_iff,
      Std.TreeMap.mem_toList_iff_getElem?_eq_some]
    constructor
    · rintro ⟨k', a, ha, rfl, rfl⟩
      exact ⟨a, ha, rfl⟩
    · rintro ⟨a, ha, rfl⟩
      exact ⟨k, a, ha, rfl, rfl⟩
  have hnodup : ∀ n : Std.TreeMap κ α, (n.toList.map fun row => (row.1, view row.2)).Nodup := by
    intro n
    refine List.pairwise_map.2 (n.distinct_keys_toList.imp ?_)
    intro a b hne heq
    exact hne (by rw [(Prod.mk.inj heq).1]; exact Std.ReflCmp.compare_self)
  have hperm : (m.toList.map fun row => (row.1, view row.2)).Perm
      (m'.toList.map fun row => (row.1, view row.2)) := by
    refine (List.perm_ext_iff_of_nodup (hnodup m) (hnodup m')).2 ?_
    rintro ⟨k, b⟩
    rw [hmem, hmem, h]
  have hcount := hperm.countP_eq fun row => p row.2
  rw [List.countP_map, List.countP_map] at hcount
  exact hcount

/-- Where a test fails for every row, nothing is counted. -/
theorem rowCount_eq_zero_iff (m : Std.TreeMap κ α) (p : α → Bool) :
    rowCount m p = 0 ↔ ∀ (k : κ) (a : α), m[k]? = some a → p a = false := by
  rw [rowCount, List.countP_eq_zero]
  constructor
  · intro h k a ha
    have := h (k, a) (Std.TreeMap.mem_toList_iff_getElem?_eq_some.2 ha)
    simpa using this
  · rintro h ⟨k, a⟩ hmem
    have := h k a (Std.TreeMap.mem_toList_iff_getElem?_eq_some.1 hmem)
    simp [this]

/-- A tree without rows has none to count. -/
theorem rowCount_of_isEmpty (m : Std.TreeMap κ α) (h : m.isEmpty = true) (p : α → Bool) :
    rowCount m p = 0 := by
  rw [rowCount_eq_zero_iff]
  intro k a ha
  rw [Std.TreeMap.getElem?_of_isEmpty h] at ha
  exact nomatch ha

end Rows

/-! ## The rows of a register -/

namespace Register

variable {α : Type v} {β : Type w}

/-- The number of rows of a register that pass the test. -/
def count (r : Register α) (p : α → Bool) : Nat :=
  rowCount r.rows p

@[simp] theorem count_empty (p : α → Bool) : (empty : Register α).count p = 0 := rfl

theorem count_add (r : Register α) (a : α) (p : α → Bool) :
    (r.add a).count p = r.count p + if p a then 1 else 0 := by
  have hnone : r.rows[r.next]? = none := r.get?_next
  rw [count, add, rowCount_insert, rowCount_erase_of_none r.rows r.next p hnone]
  rfl

theorem count_remove (r : Register α) (i : Nat) (a : α) (p : α → Bool) (h : r.get? i = some a) :
    r.count p = (r.remove i).count p + if p a then 1 else 0 :=
  rowCount_erase r.rows i a p h

theorem count_update (r : Register α) (i : Nat) (a : α) (change : α → α) (p : α → Bool)
    (h : r.get? i = some a) :
    (r.update i change).count p + (if p a then 1 else 0)
      = r.count p + if p (change a) then 1 else 0 := by
  have hrows : (r.update i change).rows = r.rows.insert i (change a) := by
    unfold update
    split
    · rename_i hnone
      rw [show r.rows[i]? = some a from h] at hnone
      exact nomatch hnone
    · rename_i b hb
      rw [show r.rows[i]? = some a from h] at hb
      rw [Option.some.inj hb]
  rw [count, hrows, rowCount_insert, count, rowCount_erase r.rows i a p h]
  omega

/-- Registers whose rows show the same count the same for every test of what they show. -/
theorem count_congr (r r' : Register α) (view : α → β) (p : β → Bool)
    (h : ∀ i, (r.get? i).map view = (r'.get? i).map view) :
    r.count (fun a => p (view a)) = r'.count (fun a => p (view a)) :=
  rowCount_congr r.rows r'.rows view p h

theorem count_eq_zero_iff (r : Register α) (p : α → Bool) :
    r.count p = 0 ↔ ∀ i a, r.get? i = some a → p a = false :=
  rowCount_eq_zero_iff r.rows p

/-! ## Reading one row -/

/-- A number read off a row; nothing where there is no row. -/
def readout (r : Register α) (read : α → Nat) (i : Nat) : Nat :=
  ((r.get? i).map read).getD 0

theorem readout_of_some (r : Register α) (read : α → Nat) {i : Nat} {a : α} (h : r.get? i = some a) :
    r.readout read i = read a := by
  rw [readout, h]
  rfl

theorem readout_of_none (r : Register α) (read : α → Nat) {i : Nat} (h : r.get? i = none) :
    r.readout read i = 0 := by
  rw [readout, h]
  rfl

theorem readout_add (r : Register α) (a : α) (read : α → Nat) (i : Nat) :
    (r.add a).readout read i = if r.next = i then read a else r.readout read i := by
  rw [readout, get?_add]
  split <;> rfl

theorem readout_update (r : Register α) {i : Nat} {a : α} (h : r.get? i = some a) (change : α → α)
    (read : α → Nat) (j : Nat) :
    (r.update i change).readout read j = if i = j then read (change a) else r.readout read j := by
  rw [readout, get?_update]
  split
  · rw [h]
    rfl
  · rfl

theorem readout_remove (r : Register α) (i : Nat) (read : α → Nat) (j : Nat) :
    (r.remove i).readout read j = if i = j then 0 else r.readout read j := by
  rw [readout, get?_remove]
  split <;> rfl

theorem isEmpty_iff (r : Register α) : r.isEmpty = true ↔ ∀ i, r.get? i = none := by
  rw [isEmpty, Std.TreeMap.isEmpty_iff_forall_not_mem]
  constructor
  · intro h i
    exact Std.TreeMap.getElem?_eq_none (h i)
  · intro h i hmem
    have hi : r.rows[i]? = none := h i
    rw [Std.TreeMap.mem_iff_isSome_getElem?, hi] at hmem
    exact nomatch hmem

end Register

end RefCache
