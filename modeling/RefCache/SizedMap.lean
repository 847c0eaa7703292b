import RefCache.Predicate
import RefCache.Text
import RefCache.Timeline.Lemmas
import RefCache.Total
import RefCache.Word

/-! # Sized maps

A `SizedMap κ ν` holds values under distinct keys in order of insertion. Every value is recorded together
with its size in bytes, as it was measured when the value went in, and the map keeps a running total of the
recorded sizes; the proof field `total_eq` says that the total never drifts from what they add up to. The total
is kept, and shown, as a machine word (`sizeInBytes`), which wraps around as soon as the sizes add up to more than
a word can hold.

The view is `toList`, pairs of a key and a `Sized` value, oldest first. -/

namespace RefCache

universe u v

/-- A value with the size recorded for it. -/
structure Sized (ν : Type v) where
  value : ν
  size : Nat
deriving Repr, DecidableEq

/-- Values in order of insertion with the total of their recorded sizes. -/
structure SizedMap (κ : Type u) (ν : Type v) [Key κ] where
  timeline : Timeline κ (Sized ν)
  /-- The running total of the recorded sizes. -/
  total : Tally
  total_eq : total.number = totalOf (fun e => e.2.size) timeline.toList

/-- Taking the one pair of a key away takes its size off the total. -/
private theorem totalOf_filter_add {κ : Type u} [DecidableEq κ] {ν : Type v} (k : κ) (a : Sized ν)
    (l : List (κ × Sized ν)) (hmem : (k, a) ∈ l) (hnodup : (l.map Prod.fst).Nodup) :
    totalOf (fun e => e.2.size) (l.filter (·.1 ≠ k)) + a.size = totalOf (fun e => e.2.size) l := by
  induction l with
  | nil => simp at hmem
  | cons e rest ih =>
    rw [List.map_cons, List.nodup_cons] at hnodup
    rcases List.mem_cons.1 hmem with rfl | hrest
    -- the pair is the head: the filter takes it and nothing of the rest
    · have : rest.filter (·.1 ≠ k) = rest := by
        refine List.filter_eq_self.2 fun x hx => ?_
        simp only [ne_eq, decide_not, Bool.not_eq_true', decide_eq_false_iff_not]
        exact fun heq => hnodup.1 (List.mem_map.2 ⟨x, hx, heq⟩)
      rw [List.filter_cons_of_neg (by simp), this, totalOf_cons, Nat.add_comm]
    · have hne : e.1 ≠ k := fun heq => hnodup.1 (heq ▸ List.mem_map_of_mem hrest)
      rw [List.filter_cons_of_pos (by simpa using hne), totalOf_cons, totalOf_cons, Nat.add_assoc,
        ih hrest hnodup.2]

namespace SizedMap

variable {κ : Type u} {ν : Type v} [Key κ]

/-- The map without values. -/
def empty : SizedMap κ ν where
  timeline := .empty
  total := 0
  total_eq := rfl

instance : Inhabited (SizedMap κ ν) := ⟨empty⟩

/-- The values with their keys and sizes, oldest first. -/
def toList (m : SizedMap κ ν) : List (κ × Sized ν) :=
  m.timeline.toList

/-- The values with their keys, oldest first. -/
def pairs (m : SizedMap κ ν) : List (κ × ν) :=
  m.toList.map fun e => (e.1, e.2.value)

/-- The keys, oldest first. -/
def keys (m : SizedMap κ ν) : List κ :=
  m.timeline.keys

/-- The values, oldest first. -/
def values (m : SizedMap κ ν) : List ν :=
  m.toList.map (·.2.value)

/-- The number of values. -/
def count (m : SizedMap κ ν) : Nat :=
  m.timeline.size

/-- What the recorded sizes add up to, however much it is. -/
def totalSize (m : SizedMap κ ν) : Nat :=
  m.total.number

/-- The total size of the values as it is kept and shown: a machine word. -/
def sizeInBytes (m : SizedMap κ ν) : UInt64 :=
  m.total.word

/-- The value under a key. -/
def get? (m : SizedMap κ ν) (k : κ) : Option ν :=
  (m.timeline.get? k).map Sized.value

/-- Whether there is a value under a key. -/
def contains (m : SizedMap κ ν) (k : κ) : Bool :=
  m.timeline.contains k

/-- The oldest key. -/
def firstKey? (m : SizedMap κ ν) : Option κ :=
  m.timeline.oldest?.map Prod.fst

/-- A value that is there has its part in the total. -/
private theorem size_le_total (m : SizedMap κ ν) {k : κ} {a : Sized ν} (h : m.timeline.get? k = some a) :
    a.size ≤ m.total.number := by
  rw [m.total_eq]
  exact le_totalOf_of_mem (fun e : κ × Sized ν => e.2.size) ((m.timeline.mem_toList_iff_get? k a).2 h)

/-- Takes the value under a key away, and its recorded size off the total. -/
def erase (m : SizedMap κ ν) (k : κ) : SizedMap κ ν :=
  match h : m.timeline.get? k with
  | none => m
  | some a =>
    { timeline := m.timeline.erase k
      total := m.total.takeOff a.size (m.size_le_total h)
      total_eq := by
        -- what is left and what was taken make up the old total
        have hsum := totalOf_filter_add k a m.timeline.toList
          ((m.timeline.mem_toList_iff_get? k a).2 h) m.timeline.nodup_keys
        rw [Tally.number_takeOff, m.total_eq, Timeline.toList_erase, ← hsum, Nat.add_sub_cancel] }

/-- Erasing drops the pair of the key and keeps the order of the rest. -/
@[simp] theorem toList_erase (m : SizedMap κ ν) (k : κ) :
    (m.erase k).toList = m.toList.filter (·.1 ≠ k) := by
  unfold erase toList
  split
  · rename_i h
    refine (List.filter_eq_self.2 ?_).symm
    rintro ⟨k', a⟩ hmem
    simp only [ne_eq, decide_not, Bool.not_eq_true', decide_eq_false_iff_not]
    rintro rfl
    rw [Timeline.mem_toList_iff_get?, h] at hmem
    simp at hmem
  · exact m.timeline.toList_erase k

/-- The running total is what the recorded sizes add up to. -/
theorem totalSize_eq_totalOf (m : SizedMap κ ν) :
    m.totalSize = totalOf (fun e => e.2.size) m.toList :=
  m.total_eq

/-- Puts a value of the given size in as the newest, and adds its size to the total; a value that was there under
the same key goes away. -/
def put (m : SizedMap κ ν) (k : κ) (v : ν) (size : Nat) : SizedMap κ ν where
  timeline := (m.erase k).timeline.push k ⟨v, size⟩
  total := (m.erase k).total.add size
  total_eq := by
    rw [Tally.number_add, ← totalSize, totalSize_eq_totalOf, Timeline.toList_push]
    -- the key is gone already, so pushing drops nothing more
    have : (m.erase k).timeline.toList.filter (·.1 ≠ k) = (m.erase k).toList := by
      change (m.erase k).toList.filter (·.1 ≠ k) = (m.erase k).toList
      rw [toList_erase, List.filter_filter]
      exact List.filter_congr fun e _ => by simp
    rw [this, totalOf_append, totalOf_cons, totalOf_nil, Nat.add_zero]

/-- Putting drops the old pair of the key and appends the new one, with its size. -/
@[simp] theorem toList_put (m : SizedMap κ ν) (k : κ) (v : ν) (size : Nat) :
    (m.put k v size).toList = m.toList.filter (·.1 ≠ k) ++ [(k, ⟨v, size⟩)] := by
  change ((m.erase k).timeline.push k ⟨v, size⟩).toList = _
  rw [Timeline.toList_push]
  change (m.erase k).toList.filter (·.1 ≠ k) ++ _ = _
  rw [toList_erase, List.filter_filter]
  congr 1
  exact List.filter_congr fun e _ => by simp

/-- Under a new key nothing is dropped. -/
theorem toList_put_of_new (m : SizedMap κ ν) {k : κ} (hnew : ∀ e ∈ m.toList, e.1 ≠ k) (v : ν) (size : Nat) :
    (m.put k v size).toList = m.toList ++ [(k, ⟨v, size⟩)] := by
  rw [toList_put, List.filter_eq_self.2 fun e he => by simpa using hnew e he]

/-- Takes several keys away. -/
def eraseMany (m : SizedMap κ ν) (ks : List κ) : SizedMap κ ν :=
  ks.foldl erase m

/-- Erasing several keys drops exactly their pairs. -/
@[simp] theorem toList_eraseMany (m : SizedMap κ ν) (ks : List κ) :
    (m.eraseMany ks).toList = m.toList.filter (·.1 ∉ ks) := by
  unfold eraseMany
  induction ks generalizing m with
  | nil => exact (List.filter_eq_self.2 (by simp)).symm
  | cons k ks ih =>
    rw [List.foldl_cons, ih, toList_erase, List.filter_filter]
    exact List.filter_congr fun e _ => by simp [Bool.and_comm]

/-- The oldest value with its key, and the map without it. -/
def popOldest? (m : SizedMap κ ν) : Option ((κ × ν) × SizedMap κ ν) :=
  m.timeline.oldest?.map fun e => ((e.1, e.2.value), m.erase e.1)

/-- The values whose key the predicate accepts, oldest first. The predicate is asked once for every key,
oldest first; `asked` is what it was asked before. -/
def matching (m : SizedMap κ ν) (p : Predicate κ) (asked : List κ) : List (κ × ν) :=
  p.choose asked m.pairs

/-- What a predicate has been asked after a walk over the whole map. -/
def askedAfter (m : SizedMap κ ν) (asked : List κ) : List κ :=
  m.keys.reverse ++ asked

/-- Takes away the values whose key the predicate accepts; the first part is what was taken away,
oldest first. -/
def removeAll (m : SizedMap κ ν) (p : Predicate κ) (asked : List κ) :
    List (κ × ν) × SizedMap κ ν :=
  let chosen := m.matching p asked
  (chosen, m.eraseMany (chosen.map Prod.fst))

/-- Whether the predicate accepts one of the keys, asked oldest first until it does, and what it has been
asked then. -/
def anyKey (m : SizedMap κ ν) (p : Predicate κ) (asked : List κ) : Bool × List κ :=
  p.any asked m.keys

/-- A description with the number of values, their total size and the keys. -/
def describe (m : SizedMap κ ν) (key : κ → String) : String :=
  Text.record "CountingLruMap"
    [("count", Text.number m.count),
      ("size_in_bytes", Text.number m.sizeInBytes.toNat),
      ("keys", Text.list (m.keys.map key))]

/-! ## The total as a word -/

/-- The word is what the recorded sizes add up to, but for what wraps around. -/
theorem sizeInBytes_eq (m : SizedMap κ ν) : m.sizeInBytes = UInt64.ofNat m.totalSize :=
  m.total.word_eq

theorem sizeInBytes_eq_totalOf (m : SizedMap κ ν) :
    m.sizeInBytes = UInt64.ofNat (totalOf (fun e => e.2.size) m.toList) := by
  rw [sizeInBytes_eq, totalSize_eq_totalOf]

/-- The word shows the total exactly as long as the total fits. -/
theorem toNat_sizeInBytes_eq_iff (m : SizedMap κ ν) :
    m.sizeInBytes.toNat = m.totalSize ↔ m.totalSize < UInt64.size :=
  m.total.toNat_word_eq_iff

/-- The second value is one byte more than a word can hold. -/
example : (((empty : SizedMap Nat Unit).put 1 () (UInt64.size - 1)).put 2 () 1).sizeInBytes = 0 := by
  decide +kernel

/-! ## Looking up and counting -/

@[simp] theorem toList_empty : (empty : SizedMap κ ν).toList = [] := rfl

@[simp] theorem length_toList (m : SizedMap κ ν) : m.toList.length = m.count :=
  m.timeline.length_toList

theorem keys_eq (m : SizedMap κ ν) : m.keys = m.toList.map Prod.fst := rfl

theorem nodup_keys (m : SizedMap κ ν) : m.keys.Nodup :=
  m.timeline.nodup_keys

theorem get?_eq_some_iff (m : SizedMap κ ν) (k : κ) (v : ν) :
    m.get? k = some v ↔ ∃ size, (k, ⟨v, size⟩) ∈ m.toList := by
  simp only [get?, Option.map_eq_some_iff, toList, Timeline.mem_toList_iff_get?]
  constructor
  · rintro ⟨⟨_, size⟩, h, rfl⟩
    exact ⟨size, h⟩
  · rintro ⟨size, h⟩
    exact ⟨_, h, rfl⟩

theorem contains_iff_mem_keys (m : SizedMap κ ν) (k : κ) : m.contains k = true ↔ k ∈ m.keys :=
  m.timeline.contains_iff_mem_keys k

theorem get?_eq_none_iff (m : SizedMap κ ν) (k : κ) : m.get? k = none ↔ k ∉ m.keys := by
  rw [← contains_iff_mem_keys, contains, Timeline.contains_eq_isSome, get?]
  cases m.timeline.get? k <;> simp

/-- One value at most stands under a key. -/
theorem eq_of_mem_toList (m : SizedMap κ ν) {k : κ} {a b : Sized ν} (ha : (k, a) ∈ m.toList)
    (hb : (k, b) ∈ m.toList) : a = b := by
  rw [toList, Timeline.mem_toList_iff_get?] at ha hb
  rw [ha] at hb
  exact Option.some.inj hb

/-- Erasing the oldest key leaves the rest of the list. -/
theorem toList_erase_head (m : SizedMap κ ν) {x : κ × Sized ν} {rest : List (κ × Sized ν)}
    (h : m.toList = x :: rest) : (m.erase x.1).toList = rest := by
  have hnodup := m.nodup_keys
  rw [keys_eq, h, List.map_cons, List.nodup_cons] at hnodup
  rw [toList_erase, h, List.filter_cons_of_neg (by simp)]
  refine List.filter_eq_self.2 fun y hy => ?_
  simp only [ne_eq, decide_not, Bool.not_eq_true', decide_eq_false_iff_not]
  exact fun heq => hnodup.1 (heq ▸ List.mem_map_of_mem hy)

/-- Whatever a predicate answers, the values taken away and those left make up the old map. -/
theorem count_removeAll (m : SizedMap κ ν) (p : Predicate κ) (asked : List κ) :
    (m.removeAll p asked).2.count + (m.removeAll p asked).1.length = m.count := by
  have hnodup : (m.pairs.map Prod.fst).Nodup := by
    rw [pairs, List.map_map]
    exact m.nodup_keys
  let keys := (m.matching p asked).map Prod.fst
  have hchosen : (m.matching p asked).length
      = (m.toList.filter fun x => decide (x.1 ∈ keys)).length := by
    have hfilter : m.matching p asked = m.pairs.filter fun e => decide (e.1 ∈ keys) :=
      p.choose_eq_filter_mem asked hnodup
    rw [hfilter, pairs, List.filter_map, List.length_map]
    rfl
  change (m.eraseMany keys).count + (m.matching p asked).length = m.count
  rw [hchosen, ← length_toList, toList_eraseMany, ← length_toList, ← List.countP_eq_length_filter,
    ← List.countP_eq_length_filter, List.length_eq_countP_add_countP (fun x => decide (x.1 ∈ keys)),
    Nat.add_comm]
  simp only [decide_not, decide_eq_true_eq]

/-- A predicate that looks at the key alone takes away the values whose key it accepts. -/
theorem removeAll_of_keyDetermined (m : SizedMap κ ν) {p : Predicate κ} (hp : p.KeyDetermined)
    (asked : List κ) :
    (m.removeAll p asked).1 = m.pairs.filter (fun e => p.answer [] e.1) ∧
      (m.removeAll p asked).2.toList = m.toList.filter fun e => !p.answer [] e.1 := by
  refine ⟨hp.choose_eq_filter asked m.pairs, ?_⟩
  change (m.eraseMany ((m.matching p asked).map Prod.fst)).toList = _
  rw [toList_eraseMany]
  exact hp.filter_not_chosen asked m.toList Sized.value

/-- The oldest value is the head of the list. -/
theorem popOldest?_eq (m : SizedMap κ ν) :
    m.popOldest? = m.toList.head?.map fun e => ((e.1, e.2.value), m.erase e.1) := by
  rw [popOldest?, Timeline.oldest?_eq_head?]
  rfl

end SizedMap

end RefCache
