import RefCache.Key

/-! # Timelines

A `Timeline κ α` is a sequence of pairs `(key, value)` in which every key occurs at most once and which
remembers the order of arrival: `push` brings a pair in as the newest, `dropOldest` takes the oldest
away. Every arrival is stamped with the next number, and two search trees, from key to stamp and from
stamp to pair, make all operations logarithmic. The proof fields say that the two trees hold the same
pairs and that every stamp has already been given out.

What an operation does is said through the plain view `toList`, the pairs oldest first; the lemmas
are in `RefCache.Timeline.Lemmas`. -/

namespace RefCache

universe u v

/-- Pairs with distinct keys in order of arrival. -/
structure Timeline (κ : Type u) (α : Type v) [Key κ] where
  /-- The stamp of each key. -/
  index : Std.TreeMap κ Nat
  /-- The pair that arrived under each stamp. -/
  order : Std.TreeMap Nat (κ × α)
  /-- The stamp of the next arrival. -/
  next : Nat
  /-- Both trees hold the same pairs. -/
  index_eq_some_iff : ∀ (k : κ) (s : Nat), index[k]? = some s ↔ ∃ a, order[s]? = some (k, a)
  /-- Every stamp in use was given out before `next`. -/
  lt_next : ∀ (s : Nat) (e : κ × α), order[s]? = some e → s < next

namespace Timeline

variable {κ : Type u} {α : Type v} [Key κ]

/-- The timeline without pairs. -/
def empty : Timeline κ α where
  index := ∅
  order := ∅
  next := 0
  index_eq_some_iff := by simp
  lt_next := by simp

instance : Inhabited (Timeline κ α) := ⟨empty⟩

/-- The pairs, oldest first. -/
def toList (t : Timeline κ α) : List (κ × α) :=
  t.order.toList.map Prod.snd

/-- The keys, oldest first. -/
def keys (t : Timeline κ α) : List κ :=
  t.toList.map Prod.fst

/-- The number of pairs. -/
def size (t : Timeline κ α) : Nat :=
  t.order.size

/-- The value under a key. -/
def get? (t : Timeline κ α) (k : κ) : Option α :=
  match t.index[k]? with
  | none => none
  | some s => t.order[s]?.map Prod.snd

/-- Whether a key occurs. -/
def contains (t : Timeline κ α) (k : κ) : Bool :=
  t.index.contains k

/-- Takes a key away; nothing changes when it does not occur. -/
def erase (t : Timeline κ α) (k : κ) : Timeline κ α :=
  match h : t.index[k]? with
  | none => t
  | some s =>
    { index := t.index.erase k
      order := t.order.erase s
      next := t.next
      index_eq_some_iff := by
        intro k' s'
        have hs := t.index_eq_some_iff
        simp only [Std.TreeMap.getElem?_erase, Std.compare_eq_iff_eq]
        constructor
        -- a key other than `k` keeps its stamp, and nothing else stood under the stamp of `k`
        · intro hk'
          split at hk'
          · simp at hk'
          · rename_i hne
            obtain ⟨a, ha⟩ := (hs k' s').1 hk'
            refine ⟨a, ?_⟩
            rw [if_neg, ha]
            rintro rfl
            obtain ⟨b, hb⟩ := (hs k s).1 h
            rw [ha] at hb
            simp only [Option.some.injEq, Prod.mk.injEq] at hb
            exact hne hb.1.symm
        -- conversely, a pair under another stamp has another key, as `k` has the one stamp `s`
        · rintro ⟨a, ha⟩
          split at ha
          · simp at ha
          · rename_i hne
            have hk' := (hs k' s').2 ⟨a, ha⟩
            rw [if_neg, hk']
            rintro rfl
            rw [hk', Option.some.injEq] at h
            exact hne h.symm
      lt_next := by
        intro s' e he
        rw [Std.TreeMap.getElem?_erase] at he
        split at he
        · simp at he
        · exact t.lt_next s' e he }

/-- A key that has been taken away has no stamp, which is what `append` asks for. -/
theorem index_erase_self (t : Timeline κ α) (k : κ) : (t.erase k).index[k]? = none := by
  unfold erase
  split
  · assumption
  · simp

/-- Adds a pair whose key does not occur yet, as the newest. -/
def append (t : Timeline κ α) (k : κ) (a : α) (h : t.index[k]? = none) : Timeline κ α where
  index := t.index.insert k t.next
  order := t.order.insert t.next (k, a)
  next := t.next + 1
  index_eq_some_iff := by
    intro k' s'
    have hs := t.index_eq_some_iff
    simp only [Std.TreeMap.getElem?_insert, Std.compare_eq_iff_eq]
    by_cases hk : k = k'
    · subst hk
      simp only [if_true, Option.some.injEq]
      constructor
      · rintro rfl
        exact ⟨a, by simp⟩
      · rintro ⟨b, hb⟩
        split at hb
        · assumption
        · rw [(hs k s').2 ⟨b, hb⟩] at h
          simp at h
    · rw [if_neg hk, hs]
      -- the new stamp is not in use, so no pair is overwritten
      have hfresh : t.order[t.next]? = none := by
        cases ho : t.order[t.next]? with
        | none => rfl
        | some e => exact absurd (t.lt_next _ _ ho) (Nat.lt_irrefl _)
      constructor
      · rintro ⟨b, hb⟩
        refine ⟨b, ?_⟩
        rw [if_neg, hb]
        rintro rfl
        rw [hfresh] at hb
        simp at hb
      · rintro ⟨b, hb⟩
        split at hb
        · simp only [Option.some.injEq, Prod.mk.injEq] at hb
          exact absurd hb.1 hk
        · exact ⟨b, hb⟩
  lt_next := by
    intro s e he
    simp only [Std.TreeMap.getElem?_insert, Std.compare_eq_iff_eq] at he
    split at he
    · omega
    · exact Nat.lt_succ_of_lt (t.lt_next s e he)

/-- Brings a pair in as the newest; a pair that was there under the same key goes away. -/
def push (t : Timeline κ α) (k : κ) (a : α) : Timeline κ α :=
  (t.erase k).append k a (t.index_erase_self k)

/-- The oldest pair. -/
def oldest? (t : Timeline κ α) : Option (κ × α) :=
  (t.order.entryAtIdx? 0).map Prod.snd

/-- The timeline without its oldest pair. -/
def dropOldest (t : Timeline κ α) : Timeline κ α :=
  match t.oldest? with
  | none => t
  | some e => t.erase e.1

/-- Takes several keys away. -/
def eraseMany (t : Timeline κ α) (ks : List κ) : Timeline κ α :=
  ks.foldl erase t

end Timeline

end RefCache
