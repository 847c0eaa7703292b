/-! # Totals

`totalOf size l` adds up the sizes of the elements of a list, however a size is found. -/

namespace RefCache

universe u v

variable {α : Type u} {β : Type v}

/-- The sum of the sizes of the elements. -/
def totalOf (size : α → Nat) : List α → Nat
  | [] => 0
  | a :: rest => size a + totalOf size rest

@[simp] theorem totalOf_nil (size : α → Nat) : totalOf size [] = 0 := rfl

@[simp] theorem totalOf_cons (size : α → Nat) (a : α) (l : List α) :
    totalOf size (a :: l) = size a + totalOf size l := rfl

@[simp] theorem totalOf_append (size : α → Nat) (l₁ l₂ : List α) :
    totalOf size (l₁ ++ l₂) = totalOf size l₁ + totalOf size l₂ := by
  induction l₁ with
  | nil => simp
  | cons a rest ih => rw [List.cons_append, totalOf_cons, totalOf_cons, ih, Nat.add_assoc]

theorem totalOf_map (size : β → Nat) (f : α → β) (l : List α) :
    totalOf size (l.map f) = totalOf (fun a => size (f a)) l := by
  induction l with
  | nil => rfl
  | cons a rest ih => rw [List.map_cons, totalOf_cons, totalOf_cons, ih]

/-- The order does not matter. -/
theorem totalOf_perm (size : α → Nat) {l₁ l₂ : List α} (h : l₁.Perm l₂) :
    totalOf size l₁ = totalOf size l₂ := by
  induction h with
  | nil => rfl
  | cons a _ ih => rw [totalOf_cons, totalOf_cons, ih]
  | swap a b l =>
    simp only [totalOf_cons]
    omega
  | trans _ _ ih₁ ih₂ => exact ih₁.trans ih₂

theorem totalOf_congr {size size' : α → Nat} {l : List α} (h : ∀ a ∈ l, size a = size' a) :
    totalOf size l = totalOf size' l := by
  induction l with
  | nil => rfl
  | cons a rest ih =>
    rw [totalOf_cons, totalOf_cons, h a List.mem_cons_self,
      ih fun b hb => h b (List.mem_cons_of_mem _ hb)]

theorem totalOf_le_of_sublist (size : α → Nat) {l₁ l₂ : List α} (h : l₁.Sublist l₂) :
    totalOf size l₁ ≤ totalOf size l₂ := by
  induction h with
  | slnil => exact Nat.le_refl _
  | cons a _ ih =>
    rw [totalOf_cons]
    omega
  | cons_cons a _ ih =>
    rw [totalOf_cons, totalOf_cons]
    omega

theorem le_totalOf_of_mem (size : α → Nat) {a : α} {l : List α} (h : a ∈ l) : size a ≤ totalOf size l :=
  totalOf_le_of_sublist size (List.singleton_sublist.2 h)

end RefCache
