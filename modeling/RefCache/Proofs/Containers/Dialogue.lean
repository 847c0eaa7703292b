import RefCache.Timeline.Lemmas

/-!
# Dialogues with containers

A container is asked for one thing after another. What it replies, and what becomes of it, is its
`dialogue`. One container can stand for another if, whatever is asked for, related containers reply the
same and stay related: then they reply the same in every dialogue (`dialogue_agrees`).

The containers of this library stand for plain lists of pairs with distinct keys, the order of which is
that of a timeline. To look a key up in such a list is `List.lookup`, which is what the index of the
timeline does (`Timeline.get?_eq_lookup`, `Timeline.index_keys_perm`).
-/

namespace RefCache

universe u v w x

section

variable {σ : Type u} {τ : Type v} {ρ : Type w} {α : Type x}

/-- Asks for one thing after another, the first at the moment `n`. The first part is the replies, in order. -/
def dialogue (answer : Nat → σ → ρ → α × σ) : Nat → σ → List ρ → List α × σ
  | _, s, [] => ([], s)
  | n, s, r :: rest =>
    let first := answer n s r
    let others := dialogue answer (n + 1) first.2 rest
    (first.1 :: others.1, others.2)

/-- Containers that reply the same and stay related, whatever they are asked for, do so in every dialogue. -/
theorem dialogue_agrees {R : σ → τ → Prop} {answer : Nat → σ → ρ → α × σ} {answer' : Nat → τ → ρ → α × τ}
    (hstep : ∀ n s t r, R s t → (answer n s r).1 = (answer' n t r).1 ∧ R (answer n s r).2 (answer' n t r).2)
    (requests : List ρ) (n : Nat) {s : σ} {t : τ} (h : R s t) :
    (dialogue answer n s requests).1 = (dialogue answer' n t requests).1 ∧
      R (dialogue answer n s requests).2 (dialogue answer' n t requests).2 := by
  induction requests generalizing n s t with
  | nil => exact ⟨rfl, h⟩
  | cons r rest ih =>
    obtain ⟨hreply, hfirst⟩ := hstep n s t r h
    obtain ⟨hreplies, hlast⟩ := ih (n + 1) hfirst
    exact ⟨congr (congrArg List.cons hreply) hreplies, hlast⟩

end

variable {κ : Type u} {α : Type v}

/-- Where no key occurs twice, looking a key up finds the pair that is there. -/
theorem lookup_eq_some_iff_mem [DecidableEq κ] {l : List (κ × α)} (hnodup : (l.map Prod.fst).Nodup) (k : κ)
    (a : α) : l.lookup k = some a ↔ (k, a) ∈ l := by
  induction l with
  | nil => simp
  | cons e rest ih =>
    rw [List.map_cons, List.nodup_cons] at hnodup
    rw [List.lookup_cons, List.mem_cons]
    by_cases hk : k = e.1
    · -- no other pair has the key of the first one
      have hrest : (k, a) ∉ rest := fun hmem => hnodup.1 (hk ▸ List.mem_map_of_mem hmem)
      simp [hk, Prod.ext_iff, hk ▸ hrest, eq_comm]
    · simp [beq_false_of_ne hk, hk, Prod.ext_iff, ih hnodup.2]

namespace Timeline

variable [Key κ]

/-- The index finds what is found by going through the list. -/
theorem get?_eq_lookup (t : Timeline κ α) (k : κ) : t.get? k = t.toList.lookup k := by
  apply Option.ext
  intro a
  rw [← mem_toList_iff_get?]
  exact (lookup_eq_some_iff_mem t.nodup_keys k a).symm

/-- The index has the keys of the list. -/
theorem index_keys_perm (t : Timeline κ α) : t.index.keys.Perm t.keys := by
  have hnodup : t.index.keys.Nodup := t.index.nodup_keys
  refine (List.perm_ext_iff_of_nodup hnodup t.nodup_keys).2 fun k => ?_
  rw [← contains_iff_mem_keys, Std.TreeMap.mem_keys]
  exact Iff.rfl

end Timeline

end RefCache
