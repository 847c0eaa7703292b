import RefCache.Key

/-! # Predicates that remember

A predicate is put to keys one after another, and its answer may depend on the keys it was asked for
before: a predicate can, for instance, accept whatever the first two keys are. `Predicate` is a function
from what was asked earlier, latest first, and the key in question. A walk over several containers hands
the list of keys asked so far from one container to the next. -/

namespace RefCache

universe u v w

/-- A question about keys whose answer may depend on the keys asked earlier, latest first. -/
structure Predicate (κ : Type u) where
  answer : List κ → κ → Bool

namespace Predicate

variable {κ : Type u} {α : Type v}

/-- The predicate that looks at the key alone. -/
def ofKey (test : κ → Bool) : Predicate κ where
  answer _ k := test k

/-- The predicate that holds of every key. -/
def always : Predicate κ :=
  ofKey fun _ => true

/-- The predicate answers the same for a key whenever it is asked. -/
def KeyDetermined (p : Predicate κ) : Prop :=
  ∀ asked asked' k, p.answer asked k = p.answer asked' k

theorem keyDetermined_ofKey (test : κ → Bool) : (ofKey test).KeyDetermined :=
  fun _ _ _ => rfl

theorem keyDetermined_always : (always : Predicate κ).KeyDetermined :=
  keyDetermined_ofKey _

/-- The pairs whose key the predicate accepts, when it is asked once for every pair, in order. -/
def choose (p : Predicate κ) : List κ → List (κ × α) → List (κ × α)
  | _, [] => []
  | asked, e :: rest =>
    -- the rest is asked in any case, and knows that this key was asked before
    let chosen := p.choose (e.1 :: asked) rest
    if p.answer asked e.1 then e :: chosen else chosen

/-- Whether the predicate accepts one of the keys, and what has been asked once that is known: the walk
stops at the first key accepted. -/
def any (p : Predicate κ) : List κ → List κ → Bool × List κ
  | asked, [] => (false, asked)
  | asked, k :: rest => if p.answer asked k then (true, k :: asked) else p.any (k :: asked) rest

/-- Choosing keeps the order and invents nothing. -/
theorem choose_sublist (p : Predicate κ) (asked : List κ) (l : List (κ × α)) :
    (p.choose asked l).Sublist l := by
  induction l generalizing asked with
  | nil => exact List.Sublist.slnil
  | cons e rest ih =>
    rw [choose]
    split
    · exact (ih _).cons_cons e
    · exact (ih _).cons e

/-- A walk over two lists knows in the second what was asked in the first. -/
theorem choose_append (p : Predicate κ) (asked : List κ) (l₁ l₂ : List (κ × α)) :
    p.choose asked (l₁ ++ l₂)
      = p.choose asked l₁ ++ p.choose ((l₁.map Prod.fst).reverse ++ asked) l₂ := by
  induction l₁ generalizing asked with
  | nil => rfl
  | cons e rest ih =>
    rw [List.cons_append, choose, choose, ih]
    split <;> simp

/-- When no key occurs twice, the pairs chosen are those of the keys chosen. -/
theorem choose_eq_filter_mem [DecidableEq κ] (p : Predicate κ) (asked : List κ) {l : List (κ × α)}
    (hnodup : (l.map Prod.fst).Nodup) :
    p.choose asked l = l.filter fun e => decide (e.1 ∈ (p.choose asked l).map Prod.fst) := by
  induction l generalizing asked with
  | nil => rfl
  | cons e rest ih =>
    rw [List.map_cons, List.nodup_cons] at hnodup
    have hchosen := ih (e.1 :: asked) hnodup.2
    -- the first key is none of the others, chosen or not
    have hhead : e.1 ∉ (p.choose (e.1 :: asked) rest).map Prod.fst := fun hmem =>
      hnodup.1 (((p.choose_sublist _ rest).map Prod.fst).subset hmem)
    rw [choose]
    split
    · have hrest : rest.filter (fun x => decide (x.1 ∈ e.1 :: (p.choose (e.1 :: asked) rest).map
          Prod.fst)) = p.choose (e.1 :: asked) rest := by
        conv => rhs; rw [hchosen]
        refine List.filter_congr fun x hx => decide_eq_decide.2 ?_
        have hne : x.1 ≠ e.1 := fun heq => hnodup.1 (heq ▸ List.mem_map_of_mem hx)
        rw [List.mem_cons, or_iff_right hne]
      rw [List.map_cons, List.filter_cons, if_pos (decide_eq_true List.mem_cons_self), hrest]
    · rw [List.filter_cons, if_neg fun hmem => hhead (of_decide_eq_true hmem)]
      exact hchosen

/-- For a predicate that looks at the key alone, choosing is filtering. -/
theorem choose_ofKey (test : κ → Bool) (asked : List κ) (l : List (κ × α)) :
    (ofKey test).choose asked l = l.filter fun e => test e.1 := by
  induction l generalizing asked with
  | nil => rfl
  | cons e rest ih => simp [choose, ofKey, List.filter_cons] at *; split <;> simp [*]

/-- A predicate that answers the same whenever it is asked looks at the key alone. -/
theorem KeyDetermined.eq_ofKey {p : Predicate κ} (h : p.KeyDetermined) :
    p = ofKey (p.answer []) := by
  cases p with
  | mk answer =>
    simp only [ofKey, mk.injEq]
    funext asked k
    exact h asked [] k

/-- What such a predicate chooses does not depend on what it was asked before. -/
theorem KeyDetermined.choose_eq_filter {p : Predicate κ} (h : p.KeyDetermined) (asked : List κ)
    (l : List (κ × α)) : p.choose asked l = l.filter fun e => p.answer [] e.1 := by
  conv => lhs; rw [h.eq_ofKey]
  exact choose_ofKey _ asked l

/-- The keys that such a predicate chooses are those it accepts, so dropping the pairs of the chosen keys
drops the pairs of accepted keys. -/
theorem KeyDetermined.filter_not_chosen [DecidableEq κ] {β : Type w} {p : Predicate κ}
    (h : p.KeyDetermined) (asked : List κ) (l : List (κ × β)) (view : β → α) :
    (l.filter fun x => decide (x.1 ∉ (p.choose asked (l.map fun x => (x.1, view x.2))).map Prod.fst))
      = l.filter fun x => !p.answer [] x.1 := by
  refine List.filter_congr fun x hx => ?_
  rw [h.choose_eq_filter]
  have hiff : x.1 ∈ ((l.map fun x => (x.1, view x.2)).filter fun e => p.answer [] e.1).map Prod.fst
      ↔ p.answer [] x.1 = true := by
    constructor
    · intro hmem
      obtain ⟨e, he, heq⟩ := List.mem_map.1 hmem
      exact heq ▸ (List.mem_filter.1 he).2
    · intro hanswer
      have hpair : (x.1, view x.2) ∈ l.map fun x => (x.1, view x.2) := List.mem_map.2 ⟨x, hx, rfl⟩
      exact List.mem_map.2 ⟨_, List.mem_filter.2 ⟨hpair, hanswer⟩, rfl⟩
  simp only [hiff, Bool.decide_eq_true, decide_not]

end Predicate

end RefCache
