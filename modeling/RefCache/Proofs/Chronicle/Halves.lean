import RefCache.Proofs.Chronicle.Learning
import RefCache.Proofs.Ownership.Pools

/-!
# The two halves of an adaptive policy

An adaptive policy takes an entry into the half that suits the uses of the entry. Nothing else brings
entries into a half (`Policy.idsOf_remove` and those after it), so every entry stays where it suits as long
as it is not used (`Policy.Sorted`). A probe is a use, and takes the entry in anew.
-/

namespace RefCache

universe u

/-- One of the two pools of an adaptive policy. -/
inductive Half where
  | lfu
  | mfu
deriving DecidableEq, Repr

/-- So many uses belong into a half. -/
def Half.Suits (threshold uses : Nat) : Half → Prop
  | lfu => uses ≤ threshold
  | mfu => threshold < uses

variable {κ : Type u} [Key κ]

namespace Pool

/-- A pool that loses rows keeps the order of its entries. -/
private theorem ids_sublist_of_rows {p p' : Pool κ} (h : p'.entries.toList.Sublist p.entries.toList) :
    p'.ids.Sublist p.ids :=
  h.map _

theorem ids_remove_sublist (p : Pool κ) (k : κ) : (p.remove k).2.ids.Sublist p.ids := by
  refine ids_sublist_of_rows ?_
  rw [remove, SizedMap.toList_erase]
  exact List.filter_sublist

theorem ids_removeAll_sublist (p : Pool κ) (pred : Predicate κ) (asked : List κ) :
    (p.removeAll pred asked).2.ids.Sublist p.ids := by
  refine ids_sublist_of_rows ?_
  simp only [removeAll, SizedMap.removeAll, SizedMap.toList_eraseMany]
  exact List.filter_sublist

/-- What is evicted comes first, and the rest keeps its order. -/
theorem ids_trimTo (p : Pool κ) (accesses : EntryId → Nat) (maxCount maxSize : Nat) :
    p.ids = (p.trimTo accesses maxCount maxSize).1 ++ (p.trimTo accesses maxCount maxSize).2.ids := by
  obtain ⟨out, hout, hsplit⟩ := p.trimTo_prefix accesses maxCount maxSize
  show p.entries.toList.map (·.2.value) = _
  rw [hout, hsplit, List.map_append]
  rfl

theorem ids_trimTo_sublist (p : Pool κ) (accesses : EntryId → Nat) (maxCount maxSize : Nat) :
    (p.trimTo accesses maxCount maxSize).2.ids.Sublist p.ids := by
  rw [p.ids_trimTo accesses maxCount maxSize]
  exact List.sublist_append_right _ _

/-- A new entry comes last. -/
theorem ids_put_sublist (p : Pool κ) (id : EntryId) (e : Entry κ) :
    (p.put id e).ids.Sublist (p.ids ++ [id]) := by
  show ((p.entries.put e.key id e.size).toList.map (·.2.value)).Sublist _
  rw [SizedMap.toList_put, List.map_append]
  exact (List.filter_sublist.map _).append (.refl _)

theorem mem_ids_put {p : Pool κ} {id j : EntryId} {e : Entry κ} (h : j ∈ (p.put id e).ids) :
    j = id ∨ j ∈ p.ids := by
  have hmem := (p.ids_put_sublist id e).subset h
  rw [List.mem_append, List.mem_singleton] at hmem
  exact hmem.symm

/-- A pool that does not know a key learns nothing about it. -/
theorem ghostHit_of_unknown {p : Pool κ} {k : κ} (h : (p.ghostHit k).1 = false) :
    (p.ghostHit k).2 = p := by
  rw [ghostHit_fst] at h
  unfold ghostHit
  cases hk : p.ghosts.get? k with
  | none => rw [History.refresh_of_none hk]
  | some n =>
    rw [hk] at h
    exact nomatch h

end Pool

namespace Adaptive

/-- One of the pools. -/
def pool (a : Adaptive κ) : Half → Pool κ
  | .lfu => a.lfu
  | .mfu => a.mfu

/-- A miss is always put to the ghosts of the LFU pool. -/
theorem lfu_onMiss (a : Adaptive κ) (k : κ) : (a.onMiss k).lfu = (a.lfu.ghostHit k).2 := by
  unfold onMiss
  dsimp only
  split
  · rw [(Policy.pools_growFraction _).1]
  · rename_i hunknown
    have hsame := Pool.ghostHit_of_unknown (eq_false_of_ne_true hunknown)
    split
    · rw [(Policy.pools_shrinkFraction _).1, hsame]
    · exact hsame.symm

/-- It is put to those of the MFU pool if the LFU pool does not know the key. -/
theorem mfu_onMiss (a : Adaptive κ) (k : κ) : (a.onMiss k).mfu =
    if (a.lfu.ghosts.get? k).isSome then a.mfu else (a.mfu.ghostHit k).2 := by
  rw [← Pool.ghostHit_fst]
  unfold onMiss
  dsimp only
  split
  · rw [(Policy.pools_growFraction _).2]
  · split
    · rw [(Policy.pools_shrinkFraction _).2]
    · rename_i hunknown
      exact (Pool.ghostHit_of_unknown (eq_false_of_ne_true hunknown)).symm

end Adaptive

namespace Policy

/-- The entries in one of the halves; a single queue has none. -/
def idsOf : Policy κ → Half → List EntryId
  | lru _, _ => []
  | adaptive a, half => (a.pool half).ids

/-- Every entry is in the half that suits the number of its uses. -/
def Sorted (threshold : Nat) (accesses : EntryId → Nat) (p : Policy κ) : Prop :=
  ∀ half, ∀ id ∈ p.idsOf half, half.Suits threshold (accesses id)

theorem mem_ids_of_idsOf {p : Policy κ} {half : Half} {id : EntryId} (h : id ∈ p.idsOf half) :
    id ∈ p.ids := by
  cases p with
  | lru queue => exact nomatch h
  | adaptive a =>
    cases half with
    | lfu => exact List.mem_flatMap.2 ⟨a.lfu, by simp [pools], h⟩
    | mfu => exact List.mem_flatMap.2 ⟨a.mfu, by simp [pools], h⟩

/-! ## Taking entries out -/

theorem idsOf_remove (p : Policy κ) (k : κ) (half : Half) : (p.remove k).2.idsOf half ⊆ p.idsOf half := by
  cases p with
  | lru queue => exact List.Subset.refl _
  | adaptive a =>
    cases half with
    | lfu => exact (a.lfu.ids_remove_sublist k).subset
    | mfu => exact (a.mfu.ids_remove_sublist k).subset

theorem idsOf_removeAll (p : Policy κ) (pred : Predicate κ) (asked : List κ) (half : Half) :
    (p.removeAll pred asked).2.idsOf half ⊆ p.idsOf half := by
  cases p with
  | lru queue => exact List.Subset.refl _
  | adaptive a =>
    cases half with
    | lfu => exact (a.lfu.ids_removeAll_sublist pred asked).subset
    | mfu => exact (a.mfu.ids_removeAll_sublist pred _).subset

theorem idsOf_evict (p : Policy κ) (accesses : EntryId → Nat) (maxCount maxSize : Nat) (half : Half) :
    (p.evict accesses maxCount maxSize).2.idsOf half ⊆ p.idsOf half := by
  cases p with
  | lru queue => exact List.Subset.refl _
  | adaptive a =>
    cases half with
    | lfu => exact (a.lfu.ids_trimTo_sublist accesses _ _).subset
    | mfu => exact (a.mfu.ids_trimTo_sublist accesses _ _).subset

theorem idsOf_trim (p : Policy κ) (accesses : EntryId → Nat) (target : Nat) (half : Half) :
    (p.trim accesses target).2.idsOf half ⊆ p.idsOf half := by
  cases p with
  | lru queue => exact List.Subset.refl _
  | adaptive a =>
    cases half with
    | lfu => exact (a.lfu.ids_trimTo_sublist accesses _ _).subset
    | mfu => exact (a.mfu.ids_trimTo_sublist accesses _ _).subset

theorem idsOf_emptied (p : Policy κ) (half : Half) : p.emptied.idsOf half = [] := by
  cases p with
  | lru queue => rfl
  | adaptive a => cases half <;> rfl

theorem idsOf_onMiss (p : Policy κ) (k : κ) (half : Half) : (p.onMiss k).idsOf half = p.idsOf half := by
  cases p with
  | lru queue => rfl
  | adaptive a =>
    cases half with
    | lfu =>
      show (a.onMiss k).lfu.ids = a.lfu.ids
      rw [a.lfu_onMiss]
      rfl
    | mfu =>
      show (a.onMiss k).mfu.ids = a.mfu.ids
      rw [a.mfu_onMiss]
      split <;> rfl

/-! ## Being sorted -/

variable {p p' : Policy κ} {threshold : Nat} {accesses accesses' : EntryId → Nat}

/-- Entries that stay where they are, and are not used, are still where they suit. -/
theorem Sorted.congr (h : p.Sorted threshold accesses) (hids : ∀ half, p'.idsOf half ⊆ p.idsOf half)
    (hsame : ∀ id ∈ p'.ids, accesses' id = accesses id) : p'.Sorted threshold accesses' := by
  intro half id hid
  rw [hsame id (mem_ids_of_idsOf hid)]
  exact h half id (hids half hid)

/-- An entry comes into the half that suits its uses. -/
theorem Sorted.enqueue {a : Adaptive κ} (h : (adaptive a).Sorted a.threshold accesses) {id : EntryId}
    {e : Entry κ} (huses : accesses id = e.accesses) :
    ((adaptive a).enqueue id e).Sorted a.threshold accesses := by
  show (adaptive (a.enqueue id e)).Sorted a.threshold accesses
  unfold Adaptive.enqueue
  split
  · rename_i hfrequent
    -- only the half that takes the entry in has anything new to show
    intro half j hj
    cases half with
    | lfu => exact h .lfu j hj
    | mfu =>
      rcases Pool.mem_ids_put hj with rfl | hold
      · exact huses ▸ hfrequent
      · exact h .mfu j hold
  · rename_i hrare
    intro half j hj
    cases half with
    | lfu =>
      rcases Pool.mem_ids_put hj with rfl | hold
      · exact huses ▸ Nat.le_of_not_lt hrare
      · exact h .lfu j hold
    | mfu => exact h .mfu j hj

end Policy

end RefCache
