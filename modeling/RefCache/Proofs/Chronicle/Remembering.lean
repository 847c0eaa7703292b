import Mathlib.Data.List.Induction
import RefCache.Proofs.Exclusive

/-!
# What ghosts remember

A list of ghosts is told which keys were evicted, with the uses of their entries, and which keys were missed.
`GhostEvent.remembered` does to a plain list what `History` does, and says what ghosts have to do with what they
were told:

* `mem_remembered`: the uses are those of the latest eviction of the key, and the misses since
* `remembered_pairwise`: the keys are in the order of what was last told about them
* `forgotten`: only the least recent key is forgotten, and only for a new one
-/

namespace RefCache

universe u

/-- Something that ghosts are told. -/
inductive GhostEvent (κ : Type u) where
  | evicted (key : κ) (uses : Nat)
  | missed (key : κ)
deriving DecidableEq, Repr

namespace GhostEvent

variable {κ : Type u}

/-- The key it is about. -/
def key : GhostEvent κ → κ
  | evicted k _ => k
  | missed k => k

/-- What was last told about `k'` came after all that was told about `k`. -/
def LaterIn (events : List (GhostEvent κ)) (k k' : κ) : Prop :=
  ∃ before event after, events = before ++ event :: after ∧ event.key = k' ∧
    ∀ other ∈ after, other.key ≠ k ∧ other.key ≠ k'

theorem laterIn_last (events : List (GhostEvent κ)) (event : GhostEvent κ) (k : κ) :
    LaterIn (events ++ [event]) k event.key :=
  ⟨events, event, [], rfl, rfl, by simp⟩

/-- Nothing changes for two keys by what is told about another one. -/
theorem LaterIn.concat {events : List (GhostEvent κ)} {k k' : κ} (h : LaterIn events k k')
    {event : GhostEvent κ} (hk : event.key ≠ k) (hk' : event.key ≠ k') :
    LaterIn (events ++ [event]) k k' := by
  obtain ⟨before, last, after, rfl, hlast, hafter⟩ := h
  refine ⟨before, last, after ++ [event], by simp, hlast, fun other hother => ?_⟩
  rcases List.mem_append.1 hother with hold | hnew
  · exact hafter other hold
  · obtain rfl := List.mem_singleton.1 hnew
    exact ⟨hk, hk'⟩

variable [Key κ]

/-- What an event does to ghosts, at most `capacity` of them, least recent first. -/
def remember (capacity : Nat) (ghosts : List (κ × Nat)) : GhostEvent κ → List (κ × Nat)
  | evicted k uses =>
    let all := ghosts.filter (·.1 ≠ k) ++ [(k, uses)]
    if all.length ≤ capacity then all else all.tail
  | missed k => ghosts.filter (·.1 ≠ k) ++ (ghosts.filter (·.1 = k)).map fun x => (x.1, x.2 + 1)

/-- The ghosts after several events. -/
def remembered (capacity : Nat) (events : List (GhostEvent κ)) : List (κ × Nat) :=
  events.foldl (remember capacity) []

variable {capacity : Nat} {events : List (GhostEvent κ)} {event : GhostEvent κ} {k : κ} {uses : Nat}

@[simp] theorem remembered_nil (capacity : Nat) : remembered capacity ([] : List (GhostEvent κ)) = [] := rfl

@[simp] theorem remembered_concat (capacity : Nat) (events : List (GhostEvent κ)) (event : GhostEvent κ) :
    remembered capacity (events ++ [event]) = remember capacity (remembered capacity events) event := by
  simp [remembered]

/-- What an eviction leaves are rows of other keys, and the new one. -/
theorem remember_evicted_sublist (capacity : Nat) (ghosts : List (κ × Nat)) (k : κ) (uses : Nat) :
    (remember capacity ghosts (evicted k uses)).Sublist (ghosts.filter (·.1 ≠ k) ++ [(k, uses)]) := by
  unfold remember
  dsimp only
  split
  · exact List.Sublist.refl _
  · exact List.tail_sublist _

/-- A row after an event is an old one of another key, or that of the key. -/
theorem mem_remember {ghosts : List (κ × Nat)} {x : κ × Nat} (h : x ∈ remember capacity ghosts event) :
    (x ∈ ghosts ∧ event.key ≠ x.1) ∨ event = evicted x.1 x.2 ∨
      ∃ uses, event = missed x.1 ∧ (x.1, uses) ∈ ghosts ∧ x.2 = uses + 1 := by
  cases event with
  | evicted k uses =>
    have hmem := (remember_evicted_sublist capacity ghosts k uses).subset h
    simp only [List.mem_append, List.mem_filter, List.mem_singleton, decide_eq_true_eq] at hmem
    rcases hmem with ⟨hold, hne⟩ | rfl
    · exact .inl ⟨hold, Ne.symm hne⟩
    · exact .inr (.inl rfl)
  | missed k =>
    simp only [remember, List.mem_append, List.mem_filter, List.mem_map, decide_eq_true_eq] at h
    rcases h with ⟨hold, hne⟩ | ⟨y, ⟨hy, rfl⟩, rfl⟩
    · exact .inl ⟨hold, Ne.symm hne⟩
    · exact .inr (.inr ⟨y.2, rfl, hy, rfl⟩)

/-- The uses remembered of a key are those of its latest eviction, and one for each miss since. -/
theorem mem_remembered (h : (k, uses) ∈ remembered capacity events) :
    ∃ before first after, events = before ++ evicted k first :: after ∧
      (∀ again, evicted k again ∉ after) ∧ uses = first + after.count (missed k) := by
  induction events using List.reverseRecOn generalizing uses with
  | nil => simp at h
  | append_singleton events event ih =>
    rw [remembered_concat] at h
    rcases mem_remember h with ⟨hold, hother⟩ | rfl | ⟨uses', rfl, hold, rfl⟩
    · -- the event is about another key
      obtain ⟨before, first, after, rfl, hlatest, huses⟩ := ih hold
      refine ⟨before, first, after ++ [event], by simp, fun again hagain => ?_, ?_⟩
      · rcases List.mem_append.1 hagain with hmem | hmem
        · exact hlatest again hmem
        · rw [← List.mem_singleton.1 hmem] at hother
          exact hother rfl
      · have hne : event ≠ missed k := fun heq => hother (heq ▸ rfl)
        rw [List.count_append, List.count_singleton, huses]
        simp [hne]
    · -- the key has just been evicted
      exact ⟨events, uses, [], rfl, by simp, rfl⟩
    · -- one more miss of the key
      obtain ⟨before, first, after, rfl, hlatest, rfl⟩ := ih hold
      refine ⟨before, first, after ++ [missed k], by simp, fun again hagain => ?_, ?_⟩
      · rcases List.mem_append.1 hagain with hmem | hmem
        · exact hlatest again hmem
        · simp at hmem
      · rw [List.count_append, List.count_singleton]
        simp [Nat.add_assoc]

/-- The keys are in the order of what was last told about them. -/
theorem remembered_pairwise (capacity : Nat) (events : List (GhostEvent κ)) :
    (remembered capacity events).Pairwise fun x y => LaterIn events x.1 y.1 := by
  induction events using List.reverseRecOn with
  | nil => exact List.Pairwise.nil
  | append_singleton events event ih =>
    rw [remembered_concat]
    -- rows of other keys stay in their order, and the row of the key comes last
    have hothers : ((remembered capacity events).filter (·.1 ≠ event.key)).Pairwise fun x y =>
        LaterIn (events ++ [event]) x.1 y.1 := by
      refine (ih.sublist List.filter_sublist).imp_of_mem fun hx hy hxy => ?_
      simp only [List.mem_filter, decide_eq_true_eq] at hx hy
      exact hxy.concat (Ne.symm hx.2) (Ne.symm hy.2)
    cases event with
    | evicted k uses =>
      refine List.Pairwise.sublist (remember_evicted_sublist _ _ _ _) ?_
      refine List.pairwise_append.2 ⟨hothers, List.pairwise_singleton _ _, fun x _ y hy => ?_⟩
      obtain rfl := List.mem_singleton.1 hy
      exact laterIn_last events (evicted k uses) x.1
    | missed k =>
      have hlast : ∀ (x y : κ × Nat), y ∈ ((remembered capacity events).filter (·.1 = k)).map
          (fun x => (x.1, x.2 + 1)) → LaterIn (events ++ [missed k]) x.1 y.1 := by
        intro x y hy
        simp only [List.mem_map, List.mem_filter, decide_eq_true_eq] at hy
        obtain ⟨z, ⟨_, rfl⟩, rfl⟩ := hy
        exact laterIn_last events (missed z.1) x.1
      refine List.pairwise_append.2 ⟨hothers, ?_, fun x _ y hy => hlast x y hy⟩
      exact List.pairwise_of_forall_mem_list fun x _ y hy => hlast x y hy

/-- To miss a key brings its row to the end, if there is one, and loses none. -/
theorem length_remember_missed (ghosts : List (κ × Nat)) (k : κ) :
    (remember capacity ghosts (missed k)).length = ghosts.length := by
  have hsplit := (List.filter_append_perm (fun x : κ × Nat => decide (x.1 ≠ k)) ghosts).length_eq
  simp only [decide_not, Bool.not_not] at hsplit
  simp only [remember, decide_not, List.length_append, List.length_map] at hsplit ⊢
  exact hsplit

theorem length_remembered_le (capacity : Nat) (events : List (GhostEvent κ)) :
    (remembered capacity events).length ≤ capacity := by
  induction events using List.reverseRecOn with
  | nil => exact Nat.zero_le _
  | append_singleton events event ih =>
    rw [remembered_concat]
    -- only an eviction adds a row, and it gives up the oldest one when there are too many
    cases event with
    | evicted k uses =>
      have hfilter := List.length_filter_le (fun x : κ × Nat => decide (x.1 ≠ k)) (remembered capacity events)
      unfold remember
      dsimp only
      split
      · assumption
      · rw [List.length_tail, List.length_append, List.length_singleton]
        omega
    | missed k =>
      rw [length_remember_missed]
      exact ih

/-- A key that is evicted becomes the most recent one, if there is room for any. -/
theorem getLast?_remembered_evicted (hcapacity : 0 < capacity) (events : List (GhostEvent κ)) (k : κ)
    (uses : Nat) : (remembered capacity (events ++ [evicted k uses])).getLast? = some (k, uses) := by
  rw [remembered_concat]
  unfold remember
  dsimp only
  split
  · simp
  · rename_i hfull
    cases hothers : (remembered capacity events).filter (·.1 ≠ k) with
    | nil =>
      rw [hothers] at hfull
      simp at hfull
      omega
    | cons x rest => simp

/-- A key is forgotten only as the least recent one, and only when another key is evicted that is new and
more than the ghosts can remember. -/
theorem forgotten (hk : k ∈ (remembered capacity events).map Prod.fst)
    (hgone : k ∉ (remembered capacity (events ++ [event])).map Prod.fst) :
    ∃ k' uses, event = evicted k' uses ∧ k' ∉ (remembered capacity events).map Prod.fst ∧
      (remembered capacity events).length = capacity ∧
      (remembered capacity events).head?.map Prod.fst = some k := by
  have hle := length_remembered_le capacity events
  rw [remembered_concat] at hgone
  generalize remembered capacity events = ghosts at hk hgone hle
  obtain ⟨x, hx, rfl⟩ := List.mem_map.1 hk
  cases event with
  | missed k =>
    -- no row is lost by a miss
    refine absurd ?_ hgone
    by_cases hxk : x.1 = k
    · have hmissed : x ∈ ghosts.filter (·.1 = k) := List.mem_filter.2 ⟨hx, by simpa using hxk⟩
      exact List.mem_map.2
        ⟨(x.1, x.2 + 1), List.mem_append_right _ (List.mem_map.2 ⟨x, hmissed, rfl⟩), rfl⟩
    · exact List.mem_map_of_mem (List.mem_append_left _ (List.mem_filter.2 ⟨hx, by simpa using hxk⟩))
  | evicted k' uses =>
    unfold remember at hgone
    dsimp only at hgone
    have hall : x.1 ∈ (ghosts.filter (·.1 ≠ k') ++ [(k', uses)]).map Prod.fst := by
      by_cases hxk : x.1 = k'
      · simp [hxk]
      · exact List.mem_map_of_mem (List.mem_append_left _ (List.mem_filter.2 ⟨hx, by simpa using hxk⟩))
    split at hgone
    · exact absurd hall hgone
    · rename_i hfull
      -- the key is new, or it would have made room for itself
      have hnew : k' ∉ ghosts.map Prod.fst := by
        intro hold
        obtain ⟨y, hy, rfl⟩ := List.mem_map.1 hold
        have hlt : (ghosts.filter (·.1 ≠ y.1)).length < ghosts.length :=
          List.length_filter_lt_length_iff_exists.2 ⟨y, hy, by simp⟩
        rw [List.length_append, List.length_singleton] at hfull
        omega
      have hself : ghosts.filter (·.1 ≠ k') = ghosts :=
        List.filter_eq_self.2 fun y hy => by
          simpa using fun heq : y.1 = k' => hnew (heq ▸ List.mem_map_of_mem hy)
      rw [hself] at hgone hall hfull
      rw [List.length_append, List.length_singleton] at hfull
      refine ⟨k', uses, rfl, hnew, by omega, ?_⟩
      cases ghosts with
      | nil => exact nomatch hx
      | cons y rest =>
        simp only [List.cons_append, List.tail_cons, List.map_cons, List.mem_cons] at hgone hall
        exact congrArg some (hall.resolve_right hgone).symm

end GhostEvent

namespace History

variable {κ : Type u} [Key κ]

/-- What an event does to a history of uses. -/
def note (h : History κ Nat) : GhostEvent κ → History κ Nat
  | .evicted k uses => (h.insert k uses).2
  | .missed k => (h.refresh k (· + 1)).2

theorem capacity_note (h : History κ Nat) (event : GhostEvent κ) :
    (h.note event).capacity = h.capacity := by
  cases event with
  | evicted k uses => exact h.capacity_insert k uses
  | missed k => exact h.capacity_refresh k _

/-- An event does to a history what it does to a plain list. -/
theorem toList_note (h : History κ Nat) (event : GhostEvent κ) :
    (h.note event).toList = GhostEvent.remember h.capacity h.toList event := by
  cases event with
  | evicted k uses => exact h.toList_insert k uses
  | missed k =>
    unfold note GhostEvent.remember
    dsimp only
    cases hk : h.get? k with
    -- a miss of a key that is not remembered leaves the rows as they are
    | none =>
      have hother : ∀ x ∈ h.toList, x.1 ≠ k := by
        rintro ⟨_, uses⟩ hx rfl
        exact nomatch hk.symm.trans ((h.get?_eq_some_iff _ uses).2 hx)
      rw [refresh_of_none hk, List.filter_eq_self.2 fun x hx => by simpa using hother x hx,
        List.filter_eq_nil_iff.2 fun x hx => by simpa using hother x hx]
      simp
    | some uses =>
      -- the row of a missed key moves to the end, with one more use
      rw [(refresh_of_some hk _).2, filter_key_of_mem h.nodup_keys ((h.get?_eq_some_iff k uses).1 hk)]
      rfl

/-- And so do all events from the beginning. -/
theorem toList_foldl_note (capacity : Nat) (events : List (GhostEvent κ)) :
    (events.foldl note (empty capacity)).capacity = capacity ∧
      (events.foldl note (empty capacity)).toList = GhostEvent.remembered capacity events := by
  induction events using List.reverseRecOn with
  | nil => exact ⟨rfl, rfl⟩
  | append_singleton events event ih =>
    rw [List.foldl_append, List.foldl_cons, List.foldl_nil, GhostEvent.remembered_concat, toList_note,
      capacity_note, ih.1, ih.2]
    exact ⟨rfl, rfl⟩

end History

end RefCache
