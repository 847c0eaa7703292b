import Std.Data.TreeMap

/-! # Registers

A `Register α` is a table whose rows are numbered in the order in which they are added. A number is never
given out twice, so it identifies its row for ever, also after the row has been removed; the proof field
`lt_next` says so. -/

namespace RefCache

universe v

/-- Rows under numbers that are given out in order. -/
structure Register (α : Type v) where
  rows : Std.TreeMap Nat α
  /-- The number of the next row. -/
  next : Nat
  lt_next : ∀ (i : Nat) (a : α), rows[i]? = some a → i < next

namespace Register

variable {α : Type v}

/-- The register without rows. -/
def empty : Register α where
  rows := ∅
  next := 0
  lt_next := by simp

instance : Inhabited (Register α) := ⟨empty⟩

/-- The row under a number. -/
def get? (r : Register α) (i : Nat) : Option α :=
  r.rows[i]?

/-- Whether there is no row. -/
def isEmpty (r : Register α) : Bool :=
  r.rows.isEmpty

/-- Adds a row under the next number. -/
def add (r : Register α) (a : α) : Register α where
  rows := r.rows.insert r.next a
  next := r.next + 1
  lt_next := by
    intro i b hb
    simp only [Std.TreeMap.getElem?_insert, Std.compare_eq_iff_eq] at hb
    split at hb
    · omega
    · exact Nat.lt_succ_of_lt (r.lt_next i b hb)

/-- Changes the row under a number, if there is one. -/
def update (r : Register α) (i : Nat) (change : α → α) : Register α :=
  match h : r.rows[i]? with
  | none => r
  | some a =>
    { rows := r.rows.insert i (change a)
      next := r.next
      lt_next := by
        intro j b hb
        simp only [Std.TreeMap.getElem?_insert, Std.compare_eq_iff_eq] at hb
        split at hb
        · rename_i hij
          exact hij ▸ r.lt_next i a h
        · exact r.lt_next j b hb }

/-- Removes the row under a number. -/
def remove (r : Register α) (i : Nat) : Register α where
  rows := r.rows.erase i
  next := r.next
  lt_next := by
    intro j b hb
    rw [Std.TreeMap.getElem?_erase] at hb
    split at hb
    · simp at hb
    · exact r.lt_next j b hb

/-! ## Looking up after each operation -/

@[simp] theorem get?_empty (i : Nat) : (empty : Register α).get? i = none := by
  simp [get?, empty]

theorem lt_next_of_get? (r : Register α) {i : Nat} {a : α} (h : r.get? i = some a) : i < r.next :=
  r.lt_next i a h

theorem get?_next (r : Register α) : r.get? r.next = none := by
  cases h : r.get? r.next with
  | none => rfl
  | some a => exact absurd (r.lt_next_of_get? h) (Nat.lt_irrefl _)

theorem get?_add (r : Register α) (a : α) (i : Nat) :
    (r.add a).get? i = if r.next = i then some a else r.get? i := by
  simp [get?, add, Std.TreeMap.getElem?_insert]

theorem get?_update (r : Register α) (i j : Nat) (change : α → α) :
    (r.update i change).get? j = if i = j then (r.get? i).map change else r.get? j := by
  unfold update get?
  split
  · rename_i h
    by_cases hij : i = j
    · subst hij
      simp [h]
    · simp [hij]
  · rename_i a h
    by_cases hij : i = j
    · subst hij
      simp [h]
    · simp [hij, Std.TreeMap.getElem?_insert]

theorem get?_remove (r : Register α) (i j : Nat) :
    (r.remove i).get? j = if i = j then none else r.get? j := by
  simp [get?, remove, Std.TreeMap.getElem?_erase]

@[simp] theorem next_add (r : Register α) (a : α) : (r.add a).next = r.next + 1 := rfl

@[simp] theorem next_update (r : Register α) (i : Nat) (change : α → α) :
    (r.update i change).next = r.next := by
  unfold update
  split <;> rfl

@[simp] theorem next_remove (r : Register α) (i : Nat) : (r.remove i).next = r.next := rfl

end Register

end RefCache
