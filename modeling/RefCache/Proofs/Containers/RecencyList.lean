import RefCache.History
import RefCache.Proofs.Containers.Dialogue
import RefCache.Proofs.Newest

/-!
# Histories as recency lists

To those who use it, a history is a plain list of keys with their payloads, least recent first, in which no
key occurs twice and which never has more rows than the capacity (`RecencyList.perform`). What is told to it
stands at the end; what is looked at stays where it is.

If it is told of keys and nothing else, then what was forgotten on the way makes no difference: it has the
last rows of all keys, the newest of them, as many as there is room for (`toList_inserts`).
-/

namespace RefCache

universe u v

/-- Something asked of a history. -/
inductive HistoryRequest (κ : Type u) (τ : Type v) where
  | insert (k : κ) (payload : τ)
  | refresh (k : κ) (change : τ → τ)
  | remove (k : κ)
  | clear
  | get (k : κ)
  | contains (k : κ)
  | pairs

/-- What came of it. -/
inductive HistoryReply (κ : Type u) (τ : Type v) where
  /-- What was forgotten to stay within the capacity. -/
  | forgotten (pair : Option (κ × τ))
  | payload (found : Option τ)
  | truth (b : Bool)
  | pairs (all : List (κ × τ))
  | done

/-! ## The recency list -/

namespace RecencyList

variable {κ : Type u} {τ : Type v} [DecidableEq κ]

/-- What a list of keys and payloads replies, and what becomes of it. -/
def perform (capacity : Nat) (l : List (κ × τ)) : HistoryRequest κ τ → HistoryReply κ τ × List (κ × τ)
  | .insert k p =>
    let told := l.filter (·.1 ≠ k) ++ [(k, p)]
    if k ∈ l.map Prod.fst then (.forgotten none, told)
    else if told.length ≤ capacity then (.forgotten none, told)
    else (.forgotten told.head?, told.tail)
  | .refresh k change =>
    match l.lookup k with
    | none => (.payload none, l)
    | some p => (.payload (some (change p)), l.filter (·.1 ≠ k) ++ [(k, change p)])
  | .remove k => (.payload (l.lookup k), l.filter (·.1 ≠ k))
  | .clear => (.done, [])
  | .get k => (.payload (l.lookup k), l)
  | .contains k => (.truth (l.any (·.1 = k)), l)
  | .pairs => (.pairs l, l)

end RecencyList

namespace History

variable {κ : Type u} {τ : Type v} [Key κ]

/-- What a history replies, and what becomes of it. -/
def perform (h : History κ τ) : HistoryRequest κ τ → HistoryReply κ τ × History κ τ
  | .insert k p => let (pair, h') := h.insert k p; (.forgotten pair, h')
  | .refresh k change => let (found, h') := h.refresh k change; (.payload found, h')
  | .remove k => (.payload (h.get? k), h.erase k)
  | .clear => (.done, h.clear)
  | .get k => (.payload (h.get? k), h)
  | .contains k => (.truth (h.contains k), h)
  | .pairs => (.pairs h.toList, h)

/-- The history is what the list says, within its capacity, and its index agrees with its order. -/
structure Represents (h : History κ τ) (capacity : Nat) (l : List (κ × τ)) : Prop where
  toList_eq : h.toList = l
  nodup_keys : (l.map Prod.fst).Nodup
  capacity_eq : h.capacity = capacity
  length_le : l.length ≤ capacity
  /-- The index has the keys of the list, each of them once. -/
  index_keys : h.timeline.index.keys.Perm (l.map Prod.fst)

variable (h : History κ τ)

theorem represents_toList : h.Represents h.capacity h.toList where
  toList_eq := rfl
  nodup_keys := h.nodup_keys
  capacity_eq := rfl
  length_le := h.length_toList_le
  index_keys := h.timeline.index_keys_perm

/-! ## One request -/

theorem get?_eq_lookup (k : κ) : h.get? k = h.toList.lookup k :=
  h.timeline.get?_eq_lookup k

theorem contains_eq_any (k : κ) : h.contains k = h.toList.any (·.1 = k) := by
  rw [Bool.eq_iff_iff, contains_iff_mem_keys, keys, Timeline.keys, List.mem_map, List.any_eq_true]
  simp only [decide_eq_true_eq]
  rfl

/-- What an insertion forgets is the head of the list that would exceed the capacity. -/
theorem insert_fst (k : κ) (p : τ) : (h.insert k p).1 =
    let told := h.toList.filter (·.1 ≠ k) ++ [(k, p)]
    if told.length ≤ h.capacity then none else told.head? := by
  have htold : (h.timeline.push k p).toList = h.toList.filter (·.1 ≠ k) ++ [(k, p)] :=
    h.timeline.toList_push k p
  have hsize := (h.timeline.push k p).length_toList
  dsimp only
  rw [← htold, hsize, insert]
  split
  · rfl
  · exact Timeline.oldest?_eq_head? _

/-- A key that is known takes the place of itself. -/
theorem length_told_of_mem {k : κ} (hk : k ∈ h.toList.map Prod.fst) (p : τ) :
    (h.toList.filter (·.1 ≠ k) ++ [(k, p)]).length ≤ h.capacity := by
  obtain ⟨e, he, rfl⟩ := List.mem_map.1 hk
  have hfound : h.timeline.get? e.1 = some e.2 := (h.get?_eq_some_iff e.1 e.2).2 he
  have hcount := h.timeline.length_filter_ne_add e.1 e.2 hfound
  rw [List.length_append, List.length_singleton]
  exact hcount.trans_le h.length_toList_le

/-- A history replies what the list replies, and stays what the list says. -/
theorem perform_agrees (r : HistoryRequest κ τ) :
    (h.perform r).1 = (RecencyList.perform h.capacity h.toList r).1 ∧
      (h.perform r).2.toList = (RecencyList.perform h.capacity h.toList r).2 := by
  cases r with
  | insert k p =>
    rw [perform, RecencyList.perform]
    dsimp only
    rw [insert_fst, toList_insert]
    dsimp only
    -- a known key makes no row more, so it pushes nothing out
    by_cases hk : k ∈ h.toList.map Prod.fst
    · have hfits := h.length_told_of_mem hk p
      rw [if_pos hk, if_pos hfits, if_pos hfits]
      exact ⟨rfl, rfl⟩
    · rw [if_neg hk]
      split
      · exact ⟨rfl, rfl⟩
      · exact ⟨rfl, rfl⟩
  | refresh k change =>
    rw [perform, RecencyList.perform, ← get?_eq_lookup]
    cases hfound : h.get? k with
    | none =>
      rw [refresh_of_none hfound]
      exact ⟨rfl, rfl⟩
    | some p =>
      obtain ⟨hreply, hlist⟩ := refresh_of_some hfound change
      exact ⟨congrArg HistoryReply.payload hreply, hlist⟩
  | remove k => exact ⟨congrArg _ (h.get?_eq_lookup k), h.toList_erase k⟩
  | clear => exact ⟨rfl, rfl⟩
  | get k => exact ⟨congrArg _ (h.get?_eq_lookup k), rfl⟩
  | contains k => exact ⟨congrArg _ (h.contains_eq_any k), rfl⟩
  | pairs => exact ⟨rfl, rfl⟩

theorem capacity_perform (r : HistoryRequest κ τ) : (h.perform r).2.capacity = h.capacity := by
  cases r with
  | insert k p => exact h.capacity_insert k p
  | refresh k change => exact h.capacity_refresh k change
  | _ => rfl

/-! ## Insertions alone -/

/-- An insertion leaves the newest rows, as many as there is room for. -/
theorem toList_insert_eq_rtake (k : κ) (p : τ) :
    (h.insert k p).2.toList = (h.toList.filter (·.1 ≠ k) ++ [(k, p)]).rtake h.capacity := by
  have hothers : (h.toList.filter (·.1 ≠ k)).length ≤ h.capacity :=
    (List.length_filter_le _ _).trans h.length_toList_le
  rw [toList_insert]
  dsimp only
  split
  · rename_i hle
    exact (rtake_of_length_le hle).symm
  · rename_i hgt
    refine (rtake_eq_tail ?_).symm
    rw [List.length_append, List.length_singleton] at hgt ⊢
    omega

/-- What an insertion leaves of the newest rows is what it leaves of all of them. -/
theorem rtake_told_rtake {l : List (κ × τ)} (hnodup : (l.map Prod.fst).Nodup) (e : κ × τ) (capacity : Nat) :
    ((l.rtake capacity).filter (·.1 ≠ e.1) ++ [e]).rtake capacity
      = (l.filter (·.1 ≠ e.1) ++ [e]).rtake capacity := by
  cases capacity with
  | zero => rw [List.rtake_zero, List.rtake_zero]
  | succ n => rw [List.rtake_concat_succ, List.rtake_concat_succ, rtake_filter_ne hnodup]

/-- Told of rows only, a history has the last one of each key, as many of the newest as there is room for. -/
theorem toList_inserts {before : List (κ × τ)} (hbefore : h.toList = (lastOfEach before).rtake h.capacity)
    (n : Nat) (rows : List (κ × τ)) :
    (dialogue (fun _ => perform) n h (rows.map fun e => .insert e.1 e.2)).2.toList
      = (lastOfEach (before ++ rows)).rtake h.capacity := by
  -- each row told of is put behind those told of before
  induction rows generalizing n h before with
  | nil =>
    rw [List.append_nil]
    exact hbefore
  | cons e rest ih =>
    have hstep : (h.insert e.1 e.2).2.toList = (lastOfEach (before ++ [e])).rtake h.capacity := by
      rw [toList_insert_eq_rtake, hbefore, lastOfEach_concat]
      exact rtake_told_rtake (nodup_lastOfEach before) e h.capacity
    have hcapacity := h.capacity_insert e.1 e.2
    rw [← hcapacity] at hstep
    have hrest := ih (h.insert e.1 e.2).2 hstep (n + 1)
    rw [List.append_assoc, hcapacity] at hrest
    exact hrest

example : (lastOfEach [(1, "a"), (2, "b"), (1, "c"), (3, "d")]).rtake 2 = [(1, "c"), (3, "d")] := by
  decide

/-! ## Every dialogue -/

/-- Whatever is asked of a new history, it replies what a recency list replies, and is what the list says, with
no more rows than its capacity. Told of rows only, it has the newest of those that are the last of their
key. -/
theorem performs_recency_list (capacity : Nat) :
    (∀ requests : List (HistoryRequest κ τ),
      (dialogue (fun _ => perform) 0 (empty capacity) requests).1
          = (dialogue (fun _ => RecencyList.perform capacity) 0 [] requests).1 ∧
        (dialogue (fun _ => perform) 0 (empty capacity) requests).2.Represents capacity
          (dialogue (fun _ => RecencyList.perform capacity) 0 [] requests).2) ∧
      ∀ rows : List (κ × τ),
        (dialogue (fun _ => perform) 0 (empty capacity) (rows.map fun e => .insert e.1 e.2)).2.toList
          = (lastOfEach rows).rtake capacity := by
  constructor
  · intro requests
    -- the history and the list stay the same along the dialogue, and so does the capacity
    have hstep : ∀ (n : Nat) (h : History κ τ) (l : List (κ × τ)) r, h.toList = l ∧ h.capacity = capacity →
        (h.perform r).1 = (RecencyList.perform capacity l r).1 ∧
          (h.perform r).2.toList = (RecencyList.perform capacity l r).2 ∧
          (h.perform r).2.capacity = capacity := by
      rintro _ h _ r ⟨rfl, rfl⟩
      obtain ⟨hreply, hlist⟩ := h.perform_agrees r
      exact ⟨hreply, hlist, h.capacity_perform r⟩
    obtain ⟨hreplies, hlist, hcapacity⟩ :=
      dialogue_agrees hstep requests 0 ⟨toList_empty (κ := κ) (τ := τ) capacity, rfl⟩
    refine ⟨hreplies, ?_⟩
    rw [← hlist]
    conv => arg 2; rw [← hcapacity]
    exact represents_toList _
  · intro rows
    -- a new history has told of nothing yet
    have hnew : (empty capacity : History κ τ).toList = (lastOfEach ([] : List (κ × τ))).rtake capacity :=
      (List.rtake_nil capacity).symm
    exact toList_inserts (empty capacity) hnew 0 rows

end History

end RefCache
