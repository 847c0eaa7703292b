import RefCache.Timeline.Basic

/-! # The list view of a timeline

Each operation of `Timeline` is characterised by what it does to `toList`, the pairs oldest first:

* `mem_toList_iff_get?`  a pair is in the list exactly when its key is looked up to its value
* `nodup_keys`           no key occurs twice
* `toList_erase`         erasing drops the pair of that key and keeps the order of the rest
* `toList_push`          pushing drops the old pair of that key and appends the new one
* `oldest?_eq_head?`     the oldest pair is the head of the list
* `toList_dropOldest`    dropping the oldest pair leaves the tail
* `toList_eraseMany`     erasing several keys drops exactly their pairs

After this file no proof needs to look at the two search trees again. -/

namespace RefCache

universe u v

/-! ## Sorted lists and search trees over numbers -/

namespace Timeline

/-- Two lists in increasing order of stamps are equal when they have the same elements. -/
private theorem eq_of_increasing {β : Type v} {l₁ l₂ : List (Nat × β)}
    (h₁ : l₁.Pairwise fun a b => a.1 < b.1) (h₂ : l₂.Pairwise fun a b => a.1 < b.1)
    (h : ∀ x, x ∈ l₁ ↔ x ∈ l₂) : l₁ = l₂ := by
  have nodup : ∀ {l : List (Nat × β)}, (l.Pairwise fun a b => a.1 < b.1) → l.Nodup := fun hl =>
    hl.imp fun hab heq => absurd hab (by rw [heq]; exact Nat.lt_irrefl _)
  refine @List.Perm.eq_of_pairwise _ (fun a b => a.1 < b.1) _ _ ?_ h₁ h₂
    ((List.perm_ext_iff_of_nodup (nodup h₁) (nodup h₂)).2 h)
  intro a b _ _ hab hba
  exact absurd (Nat.lt_trans hab hba) (Nat.lt_irrefl _)

/-- A search tree over numbers lists them in increasing order. -/
private theorem toList_increasing {β : Type v} (m : Std.TreeMap Nat β) :
    m.toList.Pairwise fun a b => a.1 < b.1 :=
  m.ordered_keys_toList.imp fun h => Nat.compare_eq_lt.1 h

/-- Erasing a stamp filters the list; both sides are increasing, so their elements decide. -/
private theorem toList_erase_stamp {β : Type v} (m : Std.TreeMap Nat β) (s : Nat) :
    (m.erase s).toList = m.toList.filter (·.1 ≠ s) := by
  refine eq_of_increasing (toList_increasing _) ((toList_increasing m).filter _) ?_
  rintro ⟨s', b⟩
  simp only [Std.TreeMap.mem_toList_iff_getElem?_eq_some, Std.TreeMap.getElem?_erase, Std.compare_eq_iff_eq,
    List.mem_filter, decide_eq_true_eq]
  by_cases h : s = s'
  · simp [h]
  · simp [h, Ne.symm h]

/-- A stamp above all others comes in at the end of the list. -/
private theorem toList_insert_stamp {β : Type v} (m : Std.TreeMap Nat β) (s : Nat) (b : β)
    (hs : ∀ (s' : Nat) (b' : β), m[s']? = some b' → s' < s) :
    (m.insert s b).toList = m.toList ++ [(s, b)] := by
  refine eq_of_increasing (toList_increasing _) ?_ ?_
  · rw [List.pairwise_append]
    refine ⟨toList_increasing m, by simp, ?_⟩
    rintro ⟨s', b'⟩ hmem _ hb
    rw [Std.TreeMap.mem_toList_iff_getElem?_eq_some] at hmem
    obtain rfl := List.mem_singleton.1 hb
    exact hs s' b' hmem
  · rintro ⟨s', b'⟩
    simp only [Std.TreeMap.mem_toList_iff_getElem?_eq_some, Std.TreeMap.getElem?_insert, Std.compare_eq_iff_eq,
      List.mem_append, List.mem_singleton, Prod.mk.injEq]
    by_cases h : s = s'
    · subst h
      -- `s` is larger than every stamp in use, so it is not in use itself
      have : m[s]? = none := by
        cases hm : m[s]? with
        | none => rfl
        | some x => exact absurd (hs s x hm) (Nat.lt_irrefl _)
      simp [this, eq_comm]
    · simp [h, Ne.symm h]

/-- The first entry by position is the head of the list. -/
private theorem entryAtIdx?_zero {β : Type v} (m : Std.TreeMap Nat β) :
    m.entryAtIdx? 0 = m.toList.head? := by
  rw [Std.TreeMap.entryAtIdx?, Std.TreeMap.toList, Std.DTreeMap.Const.entryAtIdx?, Std.DTreeMap.Const.toList,
    Std.DTreeMap.Internal.Impl.Const.entryAtIdx?_eq_getElem? m.inner.wf.balanced]
  simp [Std.DTreeMap.Internal.Impl.Const.toList_eq_toListModel_map, List.head?_eq_getElem?]

/-! ## Looking up and the list view -/

variable {κ : Type u} {α : Type v} [Key κ]

/-- The list holds exactly the pairs that looking up finds. -/
theorem mem_toList_iff_get? (t : Timeline κ α) (k : κ) (a : α) :
    (k, a) ∈ t.toList ↔ t.get? k = some a := by
  simp only [toList, List.mem_map, Prod.exists, Std.TreeMap.mem_toList_iff_getElem?_eq_some]
  constructor
  · rintro ⟨s, k', a', h, heq⟩
    simp only [Prod.mk.injEq] at heq
    obtain ⟨rfl, rfl⟩ := heq
    have := (t.index_eq_some_iff k' s).2 ⟨a', h⟩
    simp [get?, this, h]
  · intro h
    unfold get? at h
    split at h
    · simp at h
    · rename_i s hs
      obtain ⟨b, hb⟩ := (t.index_eq_some_iff k s).1 hs
      refine ⟨s, k, a, ?_, rfl⟩
      simp only [hb, Option.map_some, Option.some.injEq] at h
      rw [hb, h]

/-- No key occurs twice: the stamp of a key is unique. -/
theorem nodup_keys (t : Timeline κ α) : t.keys.Nodup := by
  unfold keys toList
  rw [List.map_map]
  refine List.pairwise_map.2 ((toList_increasing t.order).imp_of_mem ?_)
  rintro ⟨s, k, a⟩ ⟨s', k', a'⟩ hmem hmem' hlt heq
  simp only [Function.comp_apply] at heq
  subst heq
  rw [Std.TreeMap.mem_toList_iff_getElem?_eq_some] at hmem hmem'
  have h := (t.index_eq_some_iff k s).2 ⟨a, hmem⟩
  have h' := (t.index_eq_some_iff k s').2 ⟨a', hmem'⟩
  rw [h, Option.some.injEq] at h'
  exact absurd hlt (by simp [h'])

theorem contains_eq_isSome (t : Timeline κ α) (k : κ) : t.contains k = (t.get? k).isSome := by
  unfold contains get?
  rw [Std.TreeMap.contains_eq_isSome_getElem?]
  split
  · simp [*]
  · rename_i s hs
    obtain ⟨a, ha⟩ := (t.index_eq_some_iff k s).1 hs
    simp [hs, ha]

theorem contains_iff_mem_keys (t : Timeline κ α) (k : κ) : t.contains k = true ↔ k ∈ t.keys := by
  rw [contains_eq_isSome, Option.isSome_iff_exists]
  simp only [keys, List.mem_map, Prod.exists, mem_toList_iff_get?]
  constructor
  · rintro ⟨a, ha⟩
    exact ⟨k, a, ha, rfl⟩
  · rintro ⟨_, a, ha, rfl⟩
    exact ⟨a, ha⟩

@[simp] theorem length_toList (t : Timeline κ α) : t.toList.length = t.size := by
  simp [toList, size]

@[simp] theorem length_keys (t : Timeline κ α) : t.keys.length = t.size := by
  simp [keys]

/-! ## One lemma per operation -/

@[simp] theorem toList_empty : (empty : Timeline κ α).toList = [] := rfl

/-- Erasing drops the pair of the key and keeps the order of the rest. -/
theorem toList_erase (t : Timeline κ α) (k : κ) :
    (t.erase k).toList = t.toList.filter (·.1 ≠ k) := by
  -- to have the stamp of `k` and to have the key `k` are the same for a pair of the timeline
  have stamp_iff : ∀ s e, t.order[s]? = some e → (t.index[k]? = some s ↔ e.1 = k) := by
    rintro s ⟨k', a⟩ he
    have h' := (t.index_eq_some_iff k' s).2 ⟨a, he⟩
    constructor
    · intro h
      obtain ⟨b, hb⟩ := (t.index_eq_some_iff k s).1 h
      rw [he] at hb
      simp only [Option.some.injEq, Prod.mk.injEq] at hb
      exact hb.1
    · rintro rfl
      exact h'
  unfold erase toList
  split
  -- without a stamp for `k` no pair has that key, so the filter keeps everything
  · rename_i h
    refine (List.filter_eq_self.2 ?_).symm
    intro e he
    obtain ⟨⟨s, e'⟩, hmem, rfl⟩ := List.mem_map.1 he
    rw [Std.TreeMap.mem_toList_iff_getElem?_eq_some] at hmem
    have := stamp_iff s e' hmem
    simp only [h] at this
    simpa using this
  -- with a stamp for `k`, filtering by stamp and by key is the same
  · rename_i s h
    simp only [toList_erase_stamp, List.filter_map]
    congr 1
    refine List.filter_congr ?_
    rintro ⟨s', e⟩ hmem
    rw [Std.TreeMap.mem_toList_iff_getElem?_eq_some] at hmem
    have := stamp_iff s' e hmem
    rw [h, Option.some.injEq] at this
    simp [← this, eq_comm (a := s)]

private theorem toList_append (t : Timeline κ α) (k : κ) (a : α) (h : t.index[k]? = none) :
    (t.append k a h).toList = t.toList ++ [(k, a)] := by
  unfold append toList
  simp [toList_insert_stamp t.order t.next (k, a) t.lt_next]

/-- Pushing drops the old pair of the key and appends the new one. -/
theorem toList_push (t : Timeline κ α) (k : κ) (a : α) :
    (t.push k a).toList = t.toList.filter (·.1 ≠ k) ++ [(k, a)] := by
  rw [push, toList_append, toList_erase]

/-- The oldest pair is the head of the list. -/
theorem oldest?_eq_head? (t : Timeline κ α) : t.oldest? = t.toList.head? := by
  rw [oldest?, entryAtIdx?_zero, toList, List.head?_map]

/-- Dropping the oldest pair leaves the tail of the list. -/
theorem toList_dropOldest (t : Timeline κ α) : t.dropOldest.toList = t.toList.tail := by
  unfold dropOldest
  rw [oldest?_eq_head?]
  split
  · rename_i h
    rw [List.head?_eq_none_iff.1 h, List.tail_nil]
  · rename_i e he
    obtain ⟨rest, hrest⟩ := List.head?_eq_some_iff.1 he
    have hnodup := t.nodup_keys
    rw [keys, hrest, List.map_cons, List.nodup_cons] at hnodup
    -- the key of the head occurs nowhere else, so erasing it drops the head alone
    rw [toList_erase, hrest, List.filter_cons_of_neg (by simp), List.tail_cons]
    refine List.filter_eq_self.2 ?_
    intro x hx
    simp only [ne_eq, decide_not, Bool.not_eq_true', decide_eq_false_iff_not]
    intro heq
    exact hnodup.1 (heq ▸ List.mem_map_of_mem hx)

/-- Erasing several keys drops exactly their pairs. -/
theorem toList_eraseMany (t : Timeline κ α) (ks : List κ) :
    (t.eraseMany ks).toList = t.toList.filter (·.1 ∉ ks) := by
  unfold eraseMany
  induction ks generalizing t with
  | nil => exact (List.filter_eq_self.2 (by simp)).symm
  | cons k ks ih =>
    rw [List.foldl_cons, ih, toList_erase, List.filter_filter]
    refine List.filter_congr ?_
    intro e _
    simp [Bool.and_comm]

/-! ## Consequences for looking up and counting -/

@[simp] theorem get?_empty (k : κ) : (empty : Timeline κ α).get? k = none := by
  simp [get?, empty]

theorem size_dropOldest (t : Timeline κ α) : t.dropOldest.size = t.size - 1 := by
  rw [← length_toList, toList_dropOldest, List.length_tail, length_toList]

theorem size_push_le (t : Timeline κ α) (k : κ) (a : α) : (t.push k a).size ≤ t.size + 1 := by
  rw [← length_toList, ← length_toList, toList_push, List.length_append, List.length_singleton]
  exact Nat.succ_le_succ (List.length_filter_le _ _)

/-- Exactly one pair has a key that occurs. -/
theorem length_filter_ne_add (t : Timeline κ α) (k : κ) (a : α) (h : t.get? k = some a) :
    (t.toList.filter (·.1 ≠ k)).length + 1 = t.toList.length := by
  have hmem := (t.mem_toList_iff_get? k a).2 h
  have hnodup : (t.toList.map Prod.fst).Nodup := t.nodup_keys
  generalize t.toList = l at hmem hnodup
  induction l with
  | nil => simp at hmem
  | cons e rest ih =>
    rw [List.map_cons, List.nodup_cons] at hnodup
    rcases List.mem_cons.1 hmem with rfl | hrest
    -- the pair is the head, and the rest does not have its key
    · have hself : rest.filter (·.1 ≠ k) = rest := by
        refine List.filter_eq_self.2 fun x hx => ?_
        simp only [ne_eq, decide_not, Bool.not_eq_true', decide_eq_false_iff_not]
        exact fun heq => hnodup.1 (List.mem_map.2 ⟨x, hx, heq⟩)
      rw [List.filter_cons_of_neg (by simp), hself, List.length_cons]
    · have hne : e.1 ≠ k := fun heq => hnodup.1 (heq ▸ List.mem_map_of_mem hrest)
      rw [List.filter_cons_of_pos (by simpa using hne), List.length_cons, List.length_cons,
        ih hrest hnodup.2]

/-- Pushing under a key that is there already changes no count. -/
theorem size_push_of_get? (t : Timeline κ α) (k : κ) (a b : α) (h : t.get? k = some a) :
    (t.push k b).size = t.size := by
  rw [← length_toList, toList_push, List.length_append, List.length_singleton,
    t.length_filter_ne_add k a h, length_toList]

end Timeline

end RefCache
