import RefCache.Proofs.Containers.Dialogue
import RefCache.SizedMap

/-!
# Sized maps as association lists

A sized map keeps its values three times over: in order of insertion, by an index from key to position, and
as a running total of their sizes. To those who use it, it is a plain list of keys, values and sizes without
duplicate keys, oldest first, from which a key is deleted by going through it (`AssociationList.perform`). The
running total is a machine word, so the list gives the sum of its sizes as one, and the word is that sum exactly
as long as the sum fits.

The size of a value is the one that the descriptor of the map gives to it at the moment when it is put in. A
descriptor may change its mind, and so may a predicate: it is asked once for every key, oldest first, and
its answers are what decides (`Predicate.answers`).

* `matching_eq_marked`, `toList_removeAll`, `anyKey_eq`  the walks of a predicate, by its answers
* `drain_spec`                                          taking the oldest out until nothing is left
* `perform_agrees`                                      one request
-/

namespace RefCache

universe u v

/-- Something asked of a map. -/
inductive MapRequest (κ : Type u) (ν : Type v) where
  | count
  | sizeInBytes
  | put (k : κ) (value : ν)
  | remove (k : κ)
  | popOldest
  | removeAll (predicate : Predicate κ)
  | clear
  | get (k : κ)
  | contains (k : κ)
  | firstKey
  | keys
  | pairs
  | anyKey (predicate : Predicate κ)
  | matching (predicate : Predicate κ)

/-- What came of it. -/
inductive MapReply (κ : Type u) (ν : Type v) where
  | number (n : Nat)
  | word (w : UInt64)
  | value (found : Option ν)
  | pair (found : Option (κ × ν))
  | key (found : Option κ)
  | keys (all : List κ)
  | pairs (all : List (κ × ν))
  | truth (b : Bool)
  /-- The pairs that a predicate has chosen, and the keys that it was asked about, in order. -/
  | chosen (pairs : List (κ × ν)) (asked : List κ)
  /-- Whether a predicate has accepted a key, and the keys that it was asked about, in order. -/
  | accepted (b : Bool) (asked : List κ)

/-! ## What a predicate answers -/

namespace Predicate

variable {κ : Type u} {α : Type v}

/-- The answers to a list of keys, asked one after the other by somebody who has asked before. -/
def answers (p : Predicate κ) (asked keys : List κ) : List Bool :=
  keys.mapIdx fun i k => p.answer ((keys.take i).reverse ++ asked) k

@[simp] theorem answers_nil (p : Predicate κ) (asked : List κ) : p.answers asked [] = [] := rfl

@[simp] theorem answers_cons (p : Predicate κ) (asked : List κ) (k : κ) (rest : List κ) :
    p.answers asked (k :: rest) = p.answer asked k :: p.answers (k :: asked) rest := by
  simp [answers, List.mapIdx_cons]

/-- The pairs of a list, each with the answer to its key. -/
def marked (p : Predicate κ) (asked : List κ) (l : List (κ × α)) : List ((κ × α) × Bool) :=
  l.zip (p.answers asked (l.map Prod.fst))

theorem marked_cons (p : Predicate κ) (asked : List κ) (e : κ × α) (rest : List (κ × α)) :
    p.marked asked (e :: rest) = (e, p.answer asked e.1) :: p.marked (e.1 :: asked) rest := by
  simp [marked]

/-- The pairs chosen are those whose key is answered with yes. -/
theorem choose_eq_marked (p : Predicate κ) (asked : List κ) (l : List (κ × α)) :
    p.choose asked l = ((p.marked asked l).filter (·.2)).map Prod.fst := by
  induction l generalizing asked with
  | nil => rfl
  | cons e rest ih =>
    rw [choose, marked_cons, List.filter_cons, ih]
    split <;> simp [*]

/-- When no key occurs twice, the pairs that stay without those of the chosen keys are those whose key is
answered with no. -/
theorem filter_not_chosen_eq_marked [DecidableEq κ] (p : Predicate κ) (asked : List κ) {l : List (κ × α)}
    (hnodup : (l.map Prod.fst).Nodup) :
    (l.filter fun e => decide (e.1 ∉ (p.choose asked l).map Prod.fst))
      = ((p.marked asked l).filter (!·.2)).map Prod.fst := by
  induction l generalizing asked with
  | nil => rfl
  | cons e rest ih =>
    rw [List.map_cons, List.nodup_cons] at hnodup
    -- the first key is none of the others, so choosing it or not makes no difference to them
    have hne : ∀ x ∈ rest, x.1 ≠ e.1 := fun x hx heq => hnodup.1 (heq ▸ List.mem_map_of_mem hx)
    have hhead : e.1 ∉ (p.choose (e.1 :: asked) rest).map Prod.fst := fun hmem =>
      hnodup.1 (((p.choose_sublist _ rest).map Prod.fst).subset hmem)
    rw [marked_cons, choose]
    cases hanswer : p.answer asked e.1 with
    | true =>
      rw [if_pos rfl, List.filter_cons_of_neg (by simp), List.filter_cons_of_neg (by simp),
        ← ih (e.1 :: asked) hnodup.2]
      exact List.filter_congr fun x hx => by simp [hne x hx]
    | false =>
      rw [if_neg Bool.false_ne_true, List.filter_cons_of_pos (by simpa using hhead),
        List.filter_cons_of_pos (by simp), List.map_cons, ih (e.1 :: asked) hnodup.2]

/-- A walk ends with the first key that is answered with yes, or with the last. -/
theorem any_eq_answers (p : Predicate κ) (asked keys : List κ) :
    p.any asked keys = ((p.answers asked keys).any id,
      (keys.take ((p.answers asked keys).findIdx id + 1)).reverse ++ asked) := by
  induction keys generalizing asked with
  | nil => rfl
  | cons k rest ih =>
    rw [any, answers_cons, List.findIdx_cons]
    cases hanswer : p.answer asked k with
    | true => simp
    | false => simp [ih (k :: asked)]

end Predicate

/-! ## The association list -/

namespace AssociationList

variable {κ : Type u} {ν : Type v} [DecidableEq κ]

/-- A pair without its size. -/
def unsized (e : κ × Sized ν) : κ × ν :=
  (e.1, e.2.value)

/-- What a list of keys, values and sizes replies, and what becomes of it, while the descriptor gives sizes
by `size`. -/
def perform (size : ν → Nat) (l : List (κ × Sized ν)) :
    MapRequest κ ν → MapReply κ ν × List (κ × Sized ν)
  | .count => (.number l.length, l)
  | .sizeInBytes => (.word (UInt64.ofNat (totalOf (·.2.size) l)), l)
  | .put k v => (.value ((l.lookup k).map Sized.value), l.filter (·.1 ≠ k) ++ [(k, ⟨v, size v⟩)])
  | .remove k => (.value ((l.lookup k).map Sized.value), l.filter (·.1 ≠ k))
  | .popOldest => (.pair (l.head?.map unsized), l.tail)
  | .removeAll p =>
    (.chosen (((p.marked [] l).filter (·.2)).map fun x => unsized x.1) (l.map Prod.fst),
      ((p.marked [] l).filter (!·.2)).map Prod.fst)
  | .clear => (.pairs (l.map unsized), [])
  | .get k => (.value ((l.lookup k).map Sized.value), l)
  | .contains k => (.truth (l.any (·.1 = k)), l)
  | .firstKey => (.key (l.head?.map Prod.fst), l)
  | .keys => (.keys (l.map Prod.fst), l)
  | .pairs => (.pairs (l.map unsized), l)
  | .anyKey p =>
    let answers := p.answers [] (l.map Prod.fst)
    (.accepted (answers.any id) ((l.map Prod.fst).take (answers.findIdx id + 1)), l)
  | .matching p =>
    (.chosen (((p.marked [] l).filter (·.2)).map fun x => unsized x.1) (l.map Prod.fst), l)

end AssociationList

namespace SizedMap

variable {κ : Type u} {ν : Type v} [Key κ]

/-! ## The map -/

/-- Takes out the oldest value again and again, at most `fuel` times. The first part is what was taken out,
in that order. -/
def drainLoop : Nat → SizedMap κ ν → List (κ × ν) × SizedMap κ ν
  | 0, m => ([], m)
  | fuel + 1, m =>
    match m.popOldest? with
    | none => ([], m)
    | some (e, rest) =>
      let drained := drainLoop fuel rest
      (e :: drained.1, drained.2)

/-- Takes out the oldest value until none is left. There are no more than can be counted, so the loop always
gets to its end. -/
def drain (m : SizedMap κ ν) : List (κ × ν) × SizedMap κ ν :=
  drainLoop m.count m

/-- What a map replies, and what becomes of it, while its descriptor gives sizes by `size`. -/
def perform (size : ν → Nat) (m : SizedMap κ ν) : MapRequest κ ν → MapReply κ ν × SizedMap κ ν
  | .count => (.number m.count, m)
  | .sizeInBytes => (.word m.sizeInBytes, m)
  | .put k v => (.value (m.get? k), m.put k v (size v))
  | .remove k => (.value (m.get? k), m.erase k)
  | .popOldest =>
    match m.popOldest? with
    | none => (.pair none, m)
    | some (e, rest) => (.pair (some e), rest)
  | .removeAll p =>
    let (removed, rest) := m.removeAll p []
    (.chosen removed (m.askedAfter []).reverse, rest)
  | .clear =>
    let (removed, rest) := m.drain
    (.pairs removed, rest)
  | .get k => (.value (m.get? k), m)
  | .contains k => (.truth (m.contains k), m)
  | .firstKey => (.key m.firstKey?, m)
  | .keys => (.keys m.keys, m)
  | .pairs => (.pairs m.pairs, m)
  | .anyKey p =>
    let (b, asked) := m.anyKey p []
    (.accepted b asked.reverse, m)
  | .matching p => (.chosen (m.matching p []) (m.askedAfter []).reverse, m)

/-- The map is what the list says, and its three ways of keeping values agree. -/
structure Represents (m : SizedMap κ ν) (l : List (κ × Sized ν)) : Prop where
  toList_eq : m.toList = l
  nodup_keys : (l.map Prod.fst).Nodup
  count_eq : m.count = l.length
  totalSize_eq : m.totalSize = totalOf (·.2.size) l
  /-- The total is kept as a machine word. -/
  sizeInBytes_eq : m.sizeInBytes = UInt64.ofNat (totalOf (·.2.size) l)
  /-- The word is what the sizes add up to exactly as long as that fits. -/
  sizeInBytes_exact_iff : m.sizeInBytes.toNat = totalOf (·.2.size) l ↔ totalOf (·.2.size) l < UInt64.size
  /-- The index has the keys of the list, each of them once. -/
  index_keys : m.timeline.index.keys.Perm (l.map Prod.fst)

open AssociationList (unsized)

variable (m : SizedMap κ ν)

theorem represents_toList : m.Represents m.toList where
  toList_eq := rfl
  nodup_keys := m.nodup_keys
  count_eq := m.length_toList.symm
  totalSize_eq := m.totalSize_eq_totalOf
  sizeInBytes_eq := m.sizeInBytes_eq_totalOf
  sizeInBytes_exact_iff := by
    rw [← totalSize_eq_totalOf]
    exact m.toNat_sizeInBytes_eq_iff
  index_keys := m.timeline.index_keys_perm

/-! ## One request -/

theorem get?_eq_lookup (k : κ) : m.get? k = (m.toList.lookup k).map Sized.value :=
  congrArg (Option.map Sized.value) (m.timeline.get?_eq_lookup k)

theorem contains_eq_any (k : κ) : m.contains k = m.toList.any (·.1 = k) := by
  rw [Bool.eq_iff_iff, contains_iff_mem_keys, keys_eq, List.mem_map, List.any_eq_true]
  simp only [decide_eq_true_eq]

theorem firstKey?_eq : m.firstKey? = m.toList.head?.map Prod.fst := by
  rw [firstKey?, Timeline.oldest?_eq_head?]
  rfl

theorem reverse_askedAfter : (m.askedAfter []).reverse = m.toList.map Prod.fst := by
  rw [askedAfter, List.append_nil, List.reverse_reverse, keys_eq]

omit [Key κ] in
/-- Without sizes a predicate chooses the same pairs. -/
theorem choose_map_unsized (p : Predicate κ) (asked : List κ) (l : List (κ × Sized ν)) :
    p.choose asked (l.map unsized) = (p.choose asked l).map unsized := by
  induction l generalizing asked with
  | nil => rfl
  | cons e rest ih =>
    have hkey : (unsized e).1 = e.1 := rfl
    rw [List.map_cons, Predicate.choose, Predicate.choose, ih, hkey]
    by_cases hanswer : p.answer asked e.1 = true
    · rw [if_pos hanswer, if_pos hanswer, List.map_cons]
    · rw [if_neg hanswer, if_neg hanswer]

theorem matching_eq_marked (p : Predicate κ) :
    m.matching p [] = ((p.marked [] m.toList).filter (·.2)).map fun x => unsized x.1 := by
  have hpairs : m.pairs = m.toList.map unsized := rfl
  rw [matching, hpairs, choose_map_unsized, Predicate.choose_eq_marked, List.map_map]
  rfl

theorem chosen_eq_marked (p : Predicate κ) :
    MapReply.chosen (m.matching p []) (m.askedAfter []).reverse
      = .chosen (((p.marked [] m.toList).filter (·.2)).map fun x => unsized x.1) (m.toList.map Prod.fst) := by
  rw [matching_eq_marked, reverse_askedAfter]

theorem toList_removeAll (p : Predicate κ) :
    (m.removeAll p []).2.toList = ((p.marked [] m.toList).filter (!·.2)).map Prod.fst := by
  have hpairs : m.pairs = m.toList.map unsized := rfl
  have hkeys : (m.matching p []).map Prod.fst = (p.choose [] m.toList).map Prod.fst := by
    rw [matching, hpairs, choose_map_unsized, List.map_map]
    rfl
  rw [removeAll, toList_eraseMany, hkeys]
  exact p.filter_not_chosen_eq_marked [] m.nodup_keys

theorem anyKey_eq (p : Predicate κ) : m.anyKey p [] = ((p.answers [] (m.toList.map Prod.fst)).any id,
    ((m.toList.map Prod.fst).take ((p.answers [] (m.toList.map Prod.fst)).findIdx id + 1)).reverse) := by
  rw [anyKey, keys_eq, Predicate.any_eq_answers, List.append_nil]

/-- All that there was comes out, oldest first, and nothing is left. -/
theorem drain_spec : m.drain.1 = m.pairs ∧ m.drain.2.toList = [] := by
  have hloop : ∀ (l : List (κ × Sized ν)) (m : SizedMap κ ν), m.toList = l →
      (drainLoop l.length m).1 = l.map unsized ∧ (drainLoop l.length m).2.toList = [] := by
    intro l
    induction l with
    | nil => exact fun m hl => ⟨rfl, hl⟩
    | cons e rest ih =>
      intro m hl
      obtain ⟨hpairs, hempty⟩ := ih (m.erase e.1) (m.toList_erase_head hl)
      rw [List.length_cons, drainLoop, popOldest?_eq, hl]
      exact ⟨congrArg (unsized e :: ·) hpairs, hempty⟩
  rw [drain, ← length_toList]
  exact hloop m.toList m rfl

/-- A map replies what the list replies, and stays what the list says. -/
theorem perform_agrees (size : ν → Nat) (r : MapRequest κ ν) :
    (m.perform size r).1 = (AssociationList.perform size m.toList r).1 ∧
      (m.perform size r).2.toList = (AssociationList.perform size m.toList r).2 := by
  cases r with
  | count => exact ⟨congrArg _ m.length_toList.symm, rfl⟩
  | sizeInBytes => exact ⟨congrArg _ m.sizeInBytes_eq_totalOf, rfl⟩
  | put k v => exact ⟨congrArg _ (m.get?_eq_lookup k), m.toList_put k v (size v)⟩
  | remove k => exact ⟨congrArg _ (m.get?_eq_lookup k), m.toList_erase k⟩
  -- only the first row is popped, if there is one
  | popOldest =>
    rw [perform, AssociationList.perform, popOldest?_eq]
    cases hl : m.toList with
    | nil => exact ⟨rfl, hl⟩
    | cons e rest => exact ⟨rfl, m.toList_erase_head hl⟩
  | removeAll p => exact ⟨m.chosen_eq_marked p, m.toList_removeAll p⟩
  | clear => exact ⟨congrArg _ m.drain_spec.1, m.drain_spec.2⟩
  | get k => exact ⟨congrArg _ (m.get?_eq_lookup k), rfl⟩
  | contains k => exact ⟨congrArg _ (m.contains_eq_any k), rfl⟩
  | firstKey => exact ⟨congrArg _ m.firstKey?_eq, rfl⟩
  | keys => exact ⟨rfl, rfl⟩
  | pairs => exact ⟨rfl, rfl⟩
  | anyKey p =>
    refine ⟨?_, rfl⟩
    rw [perform, anyKey_eq]
    exact congrArg _ (List.reverse_reverse _)
  | matching p => exact ⟨m.chosen_eq_marked p, rfl⟩

/-! ## Every dialogue -/

/-- Whatever sizes a descriptor gives, and whatever is asked of a new map, it replies what an association list
replies, and is what the list says. -/
theorem performs_association_list (descriptor : Nat → ν → Nat) (requests : List (MapRequest κ ν)) :
    (dialogue (fun n => perform (descriptor n)) 0 (empty : SizedMap κ ν) requests).1
        = (dialogue (fun n => AssociationList.perform (descriptor n)) 0 [] requests).1 ∧
      (dialogue (fun n => perform (descriptor n)) 0 (empty : SizedMap κ ν) requests).2.Represents
        (dialogue (fun n => AssociationList.perform (descriptor n)) 0 [] requests).2 := by
  have hstep : ∀ n (m : SizedMap κ ν) (l : List (κ × Sized ν)) r, m.toList = l →
      (m.perform (descriptor n) r).1 = (AssociationList.perform (descriptor n) l r).1 ∧
        (m.perform (descriptor n) r).2.toList = (AssociationList.perform (descriptor n) l r).2 := by
    rintro n m _ r rfl
    exact m.perform_agrees (descriptor n) r
  obtain ⟨hreplies, hlist⟩ := dialogue_agrees hstep requests 0 (toList_empty (κ := κ) (ν := ν))
  exact ⟨hreplies, hlist ▸ represents_toList _⟩

end SizedMap

end RefCache
