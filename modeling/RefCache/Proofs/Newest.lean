import Mathlib.Data.List.DropRight
import Mathlib.Data.List.Dedup

/-!
# The newest rows of a list

Lists of rows stand oldest first, so the newest rows are the last ones: `List.rtake`. Where a key occurs
again and again, what counts is its last row (`lastOfEach`), and adding a row at the end takes away the one
that was the last of its key (`lastOfEach_concat`).
-/

namespace RefCache

universe u v

section

variable {α : Type u} {l : List α} {n : Nat}

theorem length_rtake (l : List α) (n : Nat) : (l.rtake n).length = min n l.length := by
  rw [List.rtake, List.length_drop]
  omega

theorem rtake_of_length_le (h : l.length ≤ n) : l.rtake n = l := by
  rw [List.rtake, Nat.sub_eq_zero_of_le h, List.drop_zero]

/-- Only the newest fit, and they all do where there is more room than that. -/
theorem rtake_min_of_length_le {room : Nat} (h : l.length ≤ room) : l.rtake (min n room) = l.rtake n := by
  have hdropped : l.length - min n room = l.length - n := by omega
  rw [List.rtake, List.rtake, hdropped]

/-- Where there are enough newer rows, the older ones do not count. -/
theorem rtake_append_of_le_length (older : List α) {newer : List α} (h : n ≤ newer.length) :
    (older ++ newer).rtake n = newer.rtake n := by
  have hdropped : (older ++ newer).length - n = older.length + (newer.length - n) := by
    rw [List.length_append]
    omega
  rw [List.rtake, List.rtake, hdropped, List.drop_append, Nat.add_sub_cancel_left,
    List.drop_eq_nil_of_le (Nat.le_add_right _ _), List.nil_append]

/-- Where no row occurs twice, the newest are those beside which there is room for all that is newer. -/
theorem mem_rtake_iff {older newer : List α} {a : α} (hnodup : l.Nodup) (hsplit : l = older ++ a :: newer)
    (n : Nat) : a ∈ l.rtake n ↔ newer.length < n := by
  subst hsplit
  constructor
  · -- with as many newer rows, these are all that is kept
    intro hmem
    refine Nat.lt_of_not_le fun hle => ?_
    have hnewer : (older ++ a :: newer).rtake n = newer.rtake n := by
      rw [List.append_cons]
      exact rtake_append_of_le_length _ hle
    rw [hnewer] at hmem
    have hrest := (List.nodup_append.1 hnodup).2.1
    exact (List.nodup_cons.1 hrest).1 (List.mem_of_mem_drop hmem)
  · intro hlt
    have hkept : (older ++ a :: newer).length - n ≤ older.length := by
      rw [List.length_append, List.length_cons]
      omega
    rw [List.rtake, List.drop_append_of_le_length hkept]
    exact List.mem_append_right _ List.mem_cons_self

/-- With room for all but one, only the oldest row goes. -/
theorem rtake_eq_tail (h : l.length = n + 1) : l.rtake n = l.tail := by
  rw [List.rtake, h, Nat.add_sub_cancel_left, List.drop_one]

end

variable {κ : Type u} {α : Type v} [DecidableEq κ]

/-- Where no key occurs twice, a key has one row at most. -/
theorem length_le_length_filter_ne {l : List (κ × α)} (hnodup : (l.map Prod.fst).Nodup) (k : κ) :
    l.length ≤ (l.filter (·.1 ≠ k)).length + 1 := by
  have hone : l.countP (fun e => decide (e.1 = k)) ≤ 1 := by
    have hcount := List.nodup_iff_count_le_one.1 hnodup k
    rwa [List.count, List.countP_map] at hcount
  have hsplit := l.length_eq_countP_add_countP fun e => decide (e.1 = k)
  have hothers : (l.filter (·.1 ≠ k)).length = l.countP fun e => decide ¬ decide (e.1 = k) = true := by
    simp only [List.countP_eq_length_filter, decide_eq_true_eq]
  omega

/-- Without a key, the newest rows are found among one more than were asked for. -/
theorem rtake_filter_ne {l : List (κ × α)} (hnodup : (l.map Prod.fst).Nodup) (k : κ) (n : Nat) :
    ((l.rtake (n + 1)).filter (·.1 ≠ k)).rtake n = (l.filter (·.1 ≠ k)).rtake n := by
  rcases Nat.lt_or_ge n l.length with hlt | hge
  · have hsplit : l = l.rdrop (n + 1) ++ l.rtake (n + 1) := (List.take_append_drop _ l).symm
    have hnewer : ((l.rtake (n + 1)).map Prod.fst).Nodup :=
      hnodup.sublist ((List.drop_sublist _ l).map Prod.fst)
    have hlength := length_le_length_filter_ne hnewer k
    rw [length_rtake] at hlength
    conv_rhs => rw [hsplit, List.filter_append]
    exact (rtake_append_of_le_length _ (by omega)).symm
  · rw [rtake_of_length_le (Nat.le_succ_of_le hge)]

/-! ## The last row of each key -/

/-- Of the rows of each key the last one. -/
def lastOfEach : List (κ × α) → List (κ × α)
  | [] => []
  | e :: rest => if e.1 ∈ rest.map Prod.fst then lastOfEach rest else e :: lastOfEach rest

/-- The keys are those of the list, each where it occurs last. -/
theorem map_fst_lastOfEach (l : List (κ × α)) : (lastOfEach l).map Prod.fst = (l.map Prod.fst).dedup := by
  induction l with
  | nil => rfl
  | cons e rest ih =>
    rw [lastOfEach, List.map_cons, List.dedup_cons]
    split
    · exact ih
    · exact congrArg (e.1 :: ·) ih

theorem nodup_lastOfEach (l : List (κ × α)) : ((lastOfEach l).map Prod.fst).Nodup :=
  map_fst_lastOfEach l ▸ List.nodup_dedup _

/-- A row that is added is the last of its key. -/
theorem lastOfEach_concat (l : List (κ × α)) (e : κ × α) :
    lastOfEach (l ++ [e]) = (lastOfEach l).filter (·.1 ≠ e.1) ++ [e] := by
  induction l with
  | nil => rfl
  | cons x rest ih =>
    have hmem : x.1 ∈ (rest ++ [e]).map Prod.fst ↔ x.1 ∈ rest.map Prod.fst ∨ x.1 = e.1 := by simp
    rw [List.cons_append, lastOfEach, lastOfEach, ih]
    by_cases hlater : x.1 ∈ rest.map Prod.fst
    · rw [if_pos (hmem.2 (.inl hlater)), if_pos hlater]
    · rw [if_neg hlater]
      by_cases hkey : x.1 = e.1
      · rw [if_pos (hmem.2 (.inr hkey)), List.filter_cons_of_neg (by simpa using hkey)]
      · rw [if_neg fun h => (hmem.1 h).elim hlater hkey, List.filter_cons_of_pos (by simpa using hkey),
          List.cons_append]

end RefCache
