import RefCache.Policy

/-!
# What evicting does to a pool

`Pool.trimTo` takes the oldest entries out one by one until the pool keeps to its limits.

* `trimTo_of_exceeds` / `trimTo_induction`: one turn of it, and a proof turn by turn
* `trimTo_spec`: what it takes out is the shortest prefix of the pool after which the limits hold, and
  every key of it becomes a ghost, in that order
* `trimTo_prefix`: the rest stays as it was
* `trimTo_count_le` / `trimTo_size_le`: afterwards the pool keeps to the limits
-/

namespace RefCache

universe u

namespace Pool

variable {κ : Type u} [Key κ]

/-- The number of entries is the length of the list of them. -/
theorem count_eq_length (p : Pool κ) : p.count = p.entries.toList.length :=
  p.entries.length_toList.symm

/-- The total size is what the recorded sizes add up to. -/
theorem size_eq_totalOf (p : Pool κ) : p.size = totalOf (fun x => x.2.size) p.entries.toList :=
  p.entries.totalSize_eq_totalOf

/-- Rows that keep to limits. -/
def Fits (maxCount maxSize : Nat) (rows : List (κ × Sized EntryId)) : Prop :=
  rows.length ≤ maxCount ∧ totalOf (fun x => x.2.size) rows ≤ maxSize

omit [Key κ] in
theorem fits_nil {maxCount maxSize : Nat} : Fits maxCount maxSize ([] : List (κ × Sized EntryId)) :=
  ⟨Nat.zero_le _, Nat.zero_le _⟩

omit [Key κ] in
/-- Fewer rows fit as well. -/
theorem Fits.sublist {maxCount maxSize : Nat} {rows rows' : List (κ × Sized EntryId)}
    (h : Fits maxCount maxSize rows) (hsub : rows'.Sublist rows) : Fits maxCount maxSize rows' :=
  ⟨Nat.le_trans hsub.length_le h.1, Nat.le_trans (totalOf_le_of_sublist _ hsub) h.2⟩

/-- A pool exceeds limits when its rows do not fit. -/
theorem not_exceeds_iff_fits (p : Pool κ) (maxCount maxSize : Nat) :
    ¬ p.Exceeds maxCount maxSize ↔ Fits maxCount maxSize p.entries.toList := by
  unfold Exceeds Fits
  rw [count_eq_length, size_eq_totalOf]
  omega

/-! ## One turn after the other -/

/-- A pool whose rows fit as they are stays as it is. -/
theorem trimTo_of_fits {p : Pool κ} {maxCount maxSize : Nat} (h : Fits maxCount maxSize p.entries.toList)
    (accesses : EntryId → Nat) : p.trimTo accesses maxCount maxSize = ([], p) := by
  unfold trimTo
  cases p.count with
  | zero => rfl
  | succ fuel => exact if_neg ((p.not_exceeds_iff_fits maxCount maxSize).2 h)

/-- The pool without the row `x`, whose key has become a ghost. -/
def evicting (p : Pool κ) (accesses : EntryId → Nat) (x : κ × Sized EntryId) : Pool κ where
  entries := p.entries.erase x.1
  ghosts := (p.ghosts.insert x.1 (accesses x.2.value)).2

theorem toList_evicting {p : Pool κ} {x : κ × Sized EntryId} {rest : List (κ × Sized EntryId)}
    (hrows : p.entries.toList = x :: rest) (accesses : EntryId → Nat) :
    (p.evicting accesses x).entries.toList = rest :=
  p.entries.toList_erase_head hrows

/-- A pool that exceeds the limits gives up its oldest row, and then what it has to give up without it. -/
theorem trimTo_of_exceeds {p : Pool κ} {maxCount maxSize : Nat} {x : κ × Sized EntryId}
    {rest : List (κ × Sized EntryId)} (hrows : p.entries.toList = x :: rest)
    (hexceeds : p.Exceeds maxCount maxSize) (accesses : EntryId → Nat) :
    p.trimTo accesses maxCount maxSize =
      (x.2.value :: ((p.evicting accesses x).trimTo accesses maxCount maxSize).1,
        ((p.evicting accesses x).trimTo accesses maxCount maxSize).2) := by
  -- without the row there is one entry less to count, so the loop has as much fuel as it needs
  have hcount : p.count = (p.evicting accesses x).count + 1 := by
    rw [count_eq_length, hrows, count_eq_length, toList_evicting hrows, List.length_cons]
  rw [trimTo, hcount, trimLoop, if_pos hexceeds, SizedMap.popOldest?_eq, hrows]
  rfl

/-- What holds of pools that keep to the limits, and of a pool that exceeds them if it holds after one turn,
holds of every pool. -/
theorem trimTo_induction {motive : Pool κ → Prop} (accesses : EntryId → Nat) (maxCount maxSize : Nat)
    (within : ∀ p, Fits maxCount maxSize p.entries.toList → motive p)
    (turn : ∀ p x rest, p.entries.toList = x :: rest → p.Exceeds maxCount maxSize →
      motive (p.evicting accesses x) → motive p) (p : Pool κ) : motive p := by
  -- each turn leaves one row less, so the induction is on the rows, over all pools that have them
  induction hrows : p.entries.toList generalizing p with
  | nil => exact within p (hrows ▸ fits_nil)
  | cons x rest ih =>
    by_cases hexceeds : p.Exceeds maxCount maxSize
    · exact turn p x rest hrows hexceeds (ih _ (toList_evicting hrows accesses))
    · exact within p ((p.not_exceeds_iff_fits _ _).1 hexceeds)

/-! ## All that goes -/

/-- The rows `out` are the shortest prefix of the rows that has to go for the rest to keep to the limits. -/
structure ShortestPrefix (maxCount maxSize : Nat) (rows out rest : List (κ × Sized EntryId)) : Prop where
  split : rows = out ++ rest
  fits : Fits maxCount maxSize rest
  shortest : ∀ pre suf, rows = pre ++ suf → Fits maxCount maxSize suf → out.length ≤ pre.length

/-- The ghosts after rows have been evicted, one after the other. -/
def bury (accesses : EntryId → Nat) (out : List (κ × Sized EntryId)) (ghosts : History κ Nat) :
    History κ Nat :=
  out.foldl (fun ghosts x => (ghosts.insert x.1 (accesses x.2.value)).2) ghosts

omit [Key κ] in
/-- Rows that do not fit have to lose the first one, and then what the rest has to lose. -/
theorem ShortestPrefix.cons {maxCount maxSize : Nat} {x : κ × Sized EntryId}
    {rows out rest : List (κ × Sized EntryId)} (hover : ¬ Fits maxCount maxSize (x :: rows))
    (h : ShortestPrefix maxCount maxSize rows out rest) :
    ShortestPrefix maxCount maxSize (x :: rows) (x :: out) rest where
  split := congrArg (x :: ·) h.split
  fits := h.fits
  shortest pre suf hsplit hfits := by
    cases pre with
    | nil =>
      rw [List.nil_append] at hsplit
      exact absurd (hsplit ▸ hfits) hover
    | cons y pre => exact Nat.succ_le_succ (h.shortest pre suf (List.cons.inj hsplit).2 hfits)

/-- What is evicted is the shortest prefix of the pool that has to go, and every key of it is remembered with
the uses of its entry. -/
theorem trimTo_spec (p : Pool κ) (accesses : EntryId → Nat) (maxCount maxSize : Nat) :
    ∃ out, (p.trimTo accesses maxCount maxSize).1 = out.map (·.2.value) ∧
      ShortestPrefix maxCount maxSize p.entries.toList out
        (p.trimTo accesses maxCount maxSize).2.entries.toList ∧
      (p.trimTo accesses maxCount maxSize).2.ghosts = bury accesses out p.ghosts := by
  induction p using trimTo_induction accesses maxCount maxSize with
  | within p hfits =>
    rw [trimTo_of_fits hfits]
    exact ⟨[], rfl, ⟨rfl, hfits, fun _ _ _ _ => Nat.zero_le _⟩, rfl⟩
  | turn p x rest hrows hexceeds ih =>
    obtain ⟨out, hids, hshortest, hghosts⟩ := ih
    have hover : ¬ Fits maxCount maxSize (x :: rest) := fun hfits =>
      (p.not_exceeds_iff_fits _ _).2 (hrows ▸ hfits) hexceeds
    rw [toList_evicting hrows] at hshortest
    rw [trimTo_of_exceeds hrows hexceeds, hrows]
    exact ⟨x :: out, congrArg (x.2.value :: ·) hids, hshortest.cons hover, hghosts⟩

omit [Key κ] in
/-- Rows that fit as they are lose nothing. -/
theorem ShortestPrefix.eq_nil {maxCount maxSize : Nat} {rows out rest : List (κ × Sized EntryId)}
    (h : ShortestPrefix maxCount maxSize rows out rest) (hfits : Fits maxCount maxSize rows) :
    out = [] :=
  List.length_eq_zero_iff.1 (Nat.le_zero.1 (h.shortest [] rows rfl hfits))

omit [Key κ] in
/-- Rows of which none has to go fit as they are. -/
theorem ShortestPrefix.fits_of_nil {maxCount maxSize : Nat} {rows rest : List (κ × Sized EntryId)}
    (h : ShortestPrefix maxCount maxSize rows [] rest) : Fits maxCount maxSize rows := by
  rw [h.split, List.nil_append]
  exact h.fits

omit [Key κ] in
/-- When only the size decides, what is left would be too large together with the last row that went. -/
theorem ShortestPrefix.lt_of_getLast? {maxSize : Nat} {rows out rest : List (κ × Sized EntryId)}
    (h : ShortestPrefix rows.length maxSize rows out rest) {x : κ × Sized EntryId}
    (hx : x ∈ out.getLast?) : maxSize < totalOf (fun y => y.2.size) rest + x.2.size := by
  obtain ⟨before, rfl⟩ := List.getLast?_eq_some_iff.1 hx
  have hsplit : rows = before ++ x :: rest := by simpa using h.split
  refine Nat.lt_of_not_le fun hle => ?_
  have hfits : Fits rows.length maxSize (x :: rest) := by
    refine ⟨?_, ?_⟩
    · rw [hsplit, List.length_append]
      exact Nat.le_add_left _ _
    · rw [totalOf_cons]
      omega
  -- so one row less would have been enough
  have hshort := h.shortest before (x :: rest) hsplit hfits
  rw [List.length_append, List.length_singleton] at hshort
  omega

/-- What is evicted is a prefix of the pool, and the rest keeps its order. -/
theorem trimTo_prefix (p : Pool κ) (accesses : EntryId → Nat) (maxCount maxSize : Nat) :
    ∃ out, (p.trimTo accesses maxCount maxSize).1 = out.map (·.2.value) ∧
      p.entries.toList = out ++ (p.trimTo accesses maxCount maxSize).2.entries.toList := by
  obtain ⟨out, hids, hshortest, _⟩ := p.trimTo_spec accesses maxCount maxSize
  exact ⟨out, hids, hshortest.split⟩

/-- After the eviction the pool keeps to the limits. -/
private theorem not_exceeds_trimTo (p : Pool κ) (accesses : EntryId → Nat) (maxCount maxSize : Nat) :
    ¬ (p.trimTo accesses maxCount maxSize).2.Exceeds maxCount maxSize := by
  obtain ⟨_, _, hshortest, _⟩ := p.trimTo_spec accesses maxCount maxSize
  exact (p.trimTo accesses maxCount maxSize).2.not_exceeds_iff_fits _ _ |>.2 hshortest.fits

theorem trimTo_count_le (p : Pool κ) (accesses : EntryId → Nat) (maxCount maxSize : Nat) :
    (p.trimTo accesses maxCount maxSize).2.count ≤ maxCount := by
  have := p.not_exceeds_trimTo accesses maxCount maxSize
  unfold Exceeds at this
  omega

theorem trimTo_size_le (p : Pool κ) (accesses : EntryId → Nat) (maxCount maxSize : Nat) :
    (p.trimTo accesses maxCount maxSize).2.size ≤ maxSize := by
  have := p.not_exceeds_trimTo accesses maxCount maxSize
  unfold Exceeds at this
  omega

end Pool

end RefCache
