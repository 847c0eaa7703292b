import RefCache.Text
import RefCache.Timeline.Lemmas

/-! # Bounded histories

A `History κ τ` remembers the most recent keys it was told of, each with a payload, and never more than
its capacity: when a new key would exceed the capacity, the least recent one is forgotten. A history of
capacity zero forgets every key at once.

The view is `toList`, least recent first. -/

namespace RefCache

universe u v

/-- The most recent keys, each with a payload, at most `capacity` of them. -/
structure History (κ : Type u) (τ : Type v) [Key κ] where
  capacity : Nat
  timeline : Timeline κ τ
  size_le : timeline.size ≤ capacity

namespace History

variable {κ : Type u} {τ : Type v} [Key κ]

/-- The history that remembers nothing yet. -/
def empty (capacity : Nat) : History κ τ where
  capacity := capacity
  timeline := .empty
  size_le := Nat.zero_le _

/-- The remembered keys with their payloads, least recent first. -/
def toList (h : History κ τ) : List (κ × τ) :=
  h.timeline.toList

/-- The remembered keys, least recent first. -/
def keys (h : History κ τ) : List κ :=
  h.timeline.keys

/-- The number of remembered keys. -/
def size (h : History κ τ) : Nat :=
  h.timeline.size

/-- The payload of a key. -/
def get? (h : History κ τ) (k : κ) : Option τ :=
  h.timeline.get? k

/-- Whether a key is remembered. -/
def contains (h : History κ τ) (k : κ) : Bool :=
  h.timeline.contains k

/-- Makes a key the most recent one, with a new payload. When that exceeds the capacity, the least recent
key is forgotten and handed back, which is the new key itself when the capacity is zero. -/
def insert (h : History κ τ) (k : κ) (payload : τ) : Option (κ × τ) × History κ τ :=
  let t := h.timeline.push k payload
  if ht : t.size ≤ h.capacity then
    (none, { h with timeline := t, size_le := ht })
  else
    (t.oldest?,
      { h with
        timeline := t.dropOldest
        size_le := by
          -- one push adds one key at most, and dropping the oldest takes one away
          have hpush : t.size ≤ h.timeline.size + 1 := h.timeline.size_push_le k payload
          have := h.size_le
          rw [Timeline.size_dropOldest]
          omega })

/-- Forgets a key. -/
def erase (h : History κ τ) (k : κ) : History κ τ where
  capacity := h.capacity
  timeline := h.timeline.erase k
  size_le := by
    refine Nat.le_trans ?_ h.size_le
    rw [← Timeline.length_toList, ← Timeline.length_toList, Timeline.toList_erase]
    exact List.length_filter_le _ _

/-- Makes a remembered key the most recent one and changes its payload; the first part is the new payload.
Nothing changes when the key is unknown. -/
def refresh (h : History κ τ) (k : κ) (change : τ → τ) : Option τ × History κ τ :=
  match hk : h.get? k with
  | none => (none, h)
  | some payload =>
    (some (change payload),
      { h with
        timeline := h.timeline.push k (change payload)
        size_le := by
          rw [h.timeline.size_push_of_get? k payload (change payload) hk]
          exact h.size_le })

/-- Forgets every key. -/
def clear (h : History κ τ) : History κ τ :=
  empty h.capacity

/-- A description with the capacity and the remembered keys and payloads. -/
def describe (h : History κ τ) (key : κ → String) (payload : τ → String) : String :=
  Text.record "BoundedHistory"
    [("capacity", Text.number h.capacity),
      ("entries", Text.list (h.toList.map fun e => Text.pair (key e.1) (payload e.2)))]

/-! ## The list view -/

@[simp] theorem toList_empty (capacity : Nat) : (empty capacity : History κ τ).toList = [] := rfl

theorem length_toList (h : History κ τ) : h.toList.length = h.size :=
  h.timeline.length_toList

/-- A history never remembers more than its capacity. -/
theorem length_toList_le (h : History κ τ) : h.toList.length ≤ h.capacity :=
  h.length_toList ▸ h.size_le

theorem nodup_keys (h : History κ τ) : (h.toList.map Prod.fst).Nodup :=
  h.timeline.nodup_keys

@[simp] theorem capacity_insert (h : History κ τ) (k : κ) (payload : τ) :
    (h.insert k payload).2.capacity = h.capacity := by
  unfold insert
  dsimp only
  split <;> rfl

/-- Inserting appends the key at the end and keeps the last `capacity` pairs. -/
theorem toList_insert (h : History κ τ) (k : κ) (payload : τ) :
    (h.insert k payload).2.toList =
      let l := h.toList.filter (·.1 ≠ k) ++ [(k, payload)]
      if l.length ≤ h.capacity then l else l.tail := by
  have hl : (h.timeline.push k payload).toList = h.toList.filter (·.1 ≠ k) ++ [(k, payload)] :=
    h.timeline.toList_push k payload
  have hlen := (h.timeline.push k payload).length_toList
  rw [hl] at hlen
  unfold insert
  dsimp only
  split
  -- within the capacity the list stays, beyond it the head goes
  · rename_i hle
    rw [if_pos (Nat.le_trans (Nat.le_of_eq hlen) hle)]
    exact hl
  · rename_i hgt
    rw [if_neg fun hle => hgt (Nat.le_trans (Nat.le_of_eq hlen.symm) hle)]
    exact (Timeline.toList_dropOldest _).trans (congrArg List.tail hl)

/-- The payload of a key is the one it is listed with. -/
theorem get?_eq_some_iff (h : History κ τ) (k : κ) (payload : τ) :
    h.get? k = some payload ↔ (k, payload) ∈ h.toList :=
  (h.timeline.mem_toList_iff_get? k payload).symm

theorem contains_iff_mem_keys (h : History κ τ) (k : κ) : h.contains k = true ↔ k ∈ h.keys :=
  h.timeline.contains_iff_mem_keys k

theorem contains_eq_isSome (h : History κ τ) (k : κ) : h.contains k = (h.get? k).isSome :=
  h.timeline.contains_eq_isSome k

/-- Refreshing a key that is unknown changes nothing. -/
theorem refresh_of_none {h : History κ τ} {k : κ} (hk : h.get? k = none) (change : τ → τ) :
    h.refresh k change = (none, h) := by
  unfold refresh
  split
  · rfl
  · rename_i payload hsome
    exact nomatch hk.symm.trans hsome

/-- Refreshing a key that is known brings it to the end, and tells the new payload. -/
theorem refresh_of_some {h : History κ τ} {k : κ} {payload : τ} (hk : h.get? k = some payload)
    (change : τ → τ) : (h.refresh k change).1 = some (change payload) ∧
      (h.refresh k change).2.toList = h.toList.filter (·.1 ≠ k) ++ [(k, change payload)] := by
  unfold refresh
  split
  · rename_i hnone
    exact nomatch hk.symm.trans hnone
  · rename_i payload' hsome
    obtain rfl := Option.some.inj (hk.symm.trans hsome)
    exact ⟨rfl, h.timeline.toList_push k (change payload)⟩

@[simp] theorem capacity_refresh (h : History κ τ) (k : κ) (change : τ → τ) :
    (h.refresh k change).2.capacity = h.capacity := by
  unfold refresh
  split <;> rfl

theorem toList_erase (h : History κ τ) (k : κ) :
    (h.erase k).toList = h.toList.filter (·.1 ≠ k) :=
  h.timeline.toList_erase k

end History

end RefCache
