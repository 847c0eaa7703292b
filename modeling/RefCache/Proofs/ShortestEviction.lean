import RefCache.Proofs.Containers.AssociationList
import RefCache.Proofs.Containers.RecencyList
import RefCache.Proofs.Eviction

/-!
# Evicting down to limits, at once and in two goes

An eviction takes turns (`Pool.Turns`): while the pool exceeds the limits, its oldest row goes and the key of
the row becomes a ghost. This always comes to an end. The rows that are gone by then are the shortest prefix that
has to go, and the ghosts are the latest of all they have been told of, as many as there is room for
(`Pool.EvictsShortest`). To evict down to limits and then to others is to evict down to the lower ones
(`trimTo_trimTo`).

* `turns_iff`: the turns lead to what `trimTo` tells, and nowhere else
* `toList_bury`: what the ghosts are after an eviction
-/

namespace RefCache

universe u

namespace Pool

variable {κ : Type u} [Key κ] {p p' : Pool κ} {accesses : EntryId → Nat} {maxCount maxSize : Nat}
  {x : κ × Sized EntryId}

/-! ## All turns -/

/-- The turns of an eviction, from a pool to what is left of it, with the entries that are taken out on the way,
in order. A pool that has nothing more to take out would end it as well. -/
inductive Turns (accesses : EntryId → Nat) (maxCount maxSize : Nat) :
    Pool κ → List EntryId → Pool κ → Prop
  | within {p : Pool κ} : ¬ p.Exceeds maxCount maxSize → Turns accesses maxCount maxSize p [] p
  | exhausted {p : Pool κ} : p.Exceeds maxCount maxSize → p.entries.popOldest? = none →
      Turns accesses maxCount maxSize p [] p
  | evict {p p' : Pool κ} {k : κ} {id : EntryId} {entries : SizedMap κ EntryId} {ids : List EntryId} :
      p.Exceeds maxCount maxSize → p.entries.popOldest? = some ((k, id), entries) →
      Turns accesses maxCount maxSize ⟨entries, (p.ghosts.insert k (accesses id)).2⟩ ids p' →
      Turns accesses maxCount maxSize p (id :: ids) p'

/-- The turns come to an end, and to no other than this. -/
theorem turns_iff {ids : List EntryId} : Turns accesses maxCount maxSize p ids p' ↔
    p.trimTo accesses maxCount maxSize = (ids, p') := by
  constructor
  · intro hturns
    induction hturns with
    | within hwithin => exact trimTo_of_fits ((not_exceeds_iff_fits _ _ _).1 hwithin) accesses
    | exhausted _ hnone =>
      -- a pool without rows keeps to any limits
      rw [SizedMap.popOldest?_eq, Option.map_eq_none_iff, List.head?_eq_none_iff] at hnone
      exact trimTo_of_fits (hnone ▸ fits_nil) accesses
    | @evict p _ _ _ _ _ hexceeds hpop _ ih =>
      -- the row that is popped is the first, so the rest of the turns starts where `evicting` leaves the pool
      rw [SizedMap.popOldest?_eq, Option.map_eq_some_iff] at hpop
      obtain ⟨x, hhead, heq⟩ := hpop
      obtain ⟨rest, hrows⟩ := List.head?_eq_some_iff.1 hhead
      simp only [Prod.mk.injEq] at heq
      obtain ⟨⟨rfl, rfl⟩, rfl⟩ := heq
      have hnext : (p.evicting accesses x).trimTo accesses maxCount maxSize = _ := ih
      rw [trimTo_of_exceeds hrows hexceeds, hnext]
  · intro htrim
    -- the turns that the trim takes, one by one
    induction p using trimTo_induction accesses maxCount maxSize generalizing ids with
    | within p hfits =>
      rw [trimTo_of_fits hfits] at htrim
      obtain ⟨rfl, rfl⟩ := Prod.mk.inj htrim
      exact .within ((not_exceeds_iff_fits _ _ _).2 hfits)
    | turn p x rest hrows hexceeds ih =>
      rw [trimTo_of_exceeds hrows hexceeds] at htrim
      obtain ⟨rfl, rfl⟩ := Prod.mk.inj htrim
      have hpop : p.entries.popOldest? = some ((x.1, x.2.value), p.entries.erase x.1) := by
        rw [SizedMap.popOldest?_eq, hrows]
        rfl
      exact .evict hexceeds hpop (ih rfl)

/-! ## Two evictions in a row -/

omit [Key κ] in
/-- To keep to the lower limits is to keep to both. -/
theorem fits_min_iff {count₁ size₁ count₂ size₂ : Nat} {rows : List (κ × Sized EntryId)} :
    Fits (min count₁ count₂) (min size₁ size₂) rows ↔ Fits count₁ size₁ rows ∧ Fits count₂ size₂ rows := by
  unfold Fits
  omega

/-- To evict down to limits and then to others is to evict down to the lower ones. -/
theorem trimTo_trimTo (p : Pool κ) (accesses : EntryId → Nat) (count₁ size₁ count₂ size₂ : Nat) :
    p.trimTo accesses (min count₁ count₂) (min size₁ size₂) =
      ((p.trimTo accesses count₁ size₁).1 ++
          ((p.trimTo accesses count₁ size₁).2.trimTo accesses count₂ size₂).1,
        ((p.trimTo accesses count₁ size₁).2.trimTo accesses count₂ size₂).2) := by
  induction p using trimTo_induction accesses (min count₁ count₂) (min size₁ size₂) with
  | within p hfits =>
    obtain ⟨hfirst, hsecond⟩ := fits_min_iff.1 hfits
    rw [trimTo_of_fits hfits, trimTo_of_fits hfirst, trimTo_of_fits hsecond, List.append_nil]
  | turn p x rest hrows hexceeds ih =>
    rw [trimTo_of_exceeds hrows hexceeds, ih]
    by_cases hfirst : p.Exceeds count₁ size₁
    · rw [trimTo_of_exceeds hrows hfirst, List.cons_append]
    · -- the first eviction has nothing to do, neither before this turn nor after it
      have hfits : Fits count₁ size₁ p.entries.toList := (p.not_exceeds_iff_fits _ _).1 hfirst
      have hrest : Fits count₁ size₁ (p.evicting accesses x).entries.toList := by
        rw [toList_evicting hrows]
        exact hfits.sublist (hrows ▸ List.sublist_cons_self x rest)
      have hsecond : p.Exceeds count₂ size₂ := by
        by_contra hwithin
        have hboth := fits_min_iff.2 ⟨hfits, (p.not_exceeds_iff_fits _ _).1 hwithin⟩
        exact (p.not_exceeds_iff_fits _ _).2 hboth hexceeds
      rw [trimTo_of_fits hfits, trimTo_of_fits hrest, trimTo_of_exceeds hrows hsecond, List.nil_append,
        List.nil_append]

/-! ## The ghosts -/

/-- All that ghosts have been told of when the rows `out` have been evicted, the latest last: what they knew of
other keys, and then the keys of the rows, with the uses of their entries. -/
def toldOf (accesses : EntryId → Nat) (out : List (κ × Sized EntryId)) (ghosts : History κ Nat) :
    List (κ × Nat) :=
  ghosts.toList.filter (fun e => out.all (e.1 ≠ ·.1)) ++ out.map fun x => (x.1, accesses x.2.value)

theorem map_fst_toldOf (accesses : EntryId → Nat) (out : List (κ × Sized EntryId)) (ghosts : History κ Nat) :
    (toldOf accesses out ghosts).map Prod.fst
      = ghosts.keys.filter (fun k => out.all (k ≠ ·.1)) ++ out.map Prod.fst := by
  have hkeys : ghosts.keys = ghosts.toList.map Prod.fst := rfl
  rw [toldOf, List.map_append, List.map_map, hkeys, List.filter_map]
  rfl

theorem nodup_toldOf {out : List (κ × Sized EntryId)} (hnodup : (out.map Prod.fst).Nodup)
    (accesses : EntryId → Nat) (ghosts : History κ Nat) :
    ((toldOf accesses out ghosts).map Prod.fst).Nodup := by
  rw [map_fst_toldOf, List.nodup_append]
  refine ⟨ghosts.nodup_keys.filter _, hnodup, ?_⟩
  rintro k hother _ hk rfl
  obtain ⟨x, hx, rfl⟩ := List.mem_map.1 hk
  have hne := List.all_eq_true.1 (List.mem_filter.1 hother).2 x hx
  exact of_decide_eq_true hne rfl

/-- What ghosts have been told of other keys, they knew. -/
theorem mem_of_mem_toldOf {out : List (κ × Sized EntryId)} {ghosts : History κ Nat} {e : κ × Nat}
    (he : e ∈ toldOf accesses out ghosts) (hother : e.1 ∉ out.map Prod.fst) : e ∈ ghosts.toList := by
  rcases List.mem_append.1 he with hknown | hevicted
  · exact List.mem_of_mem_filter hknown
  · obtain ⟨y, hy, rfl⟩ := List.mem_map.1 hevicted
    exact absurd (List.mem_map_of_mem hy) hother

/-- One more row is told of last. -/
theorem toldOf_concat {out : List (κ × Sized EntryId)} (hx : x.1 ∉ out.map Prod.fst)
    (accesses : EntryId → Nat) (ghosts : History κ Nat) : toldOf accesses (out ++ [x]) ghosts
      = (toldOf accesses out ghosts).filter (·.1 ≠ x.1) ++ [(x.1, accesses x.2.value)] := by
  -- a ghost of the key is none of the new ones
  have hothers : ghosts.toList.filter (fun e => (out ++ [x]).all (e.1 ≠ ·.1))
      = (ghosts.toList.filter fun e => out.all (e.1 ≠ ·.1)).filter (·.1 ≠ x.1) := by
    rw [List.filter_filter]
    refine List.filter_congr fun e _ => ?_
    rw [List.all_append, List.all_cons, List.all_nil, Bool.and_true, Bool.and_comm]
  have hrows : (out.map fun y => (y.1, accesses y.2.value)).filter (·.1 ≠ x.1)
      = out.map fun y => (y.1, accesses y.2.value) := by
    rw [List.filter_eq_self]
    intro e he
    obtain ⟨y, hy, rfl⟩ := List.mem_map.1 he
    have hne : y.1 ≠ x.1 := fun heq => hx (heq ▸ List.mem_map_of_mem hy)
    simpa using hne
  rw [toldOf, toldOf, hothers, List.filter_append, hrows, List.map_append, List.map_singleton,
    List.append_assoc]

/-- The ghosts after an eviction are the latest that they have been told of. -/
theorem toList_bury {out : List (κ × Sized EntryId)} (hnodup : (out.map Prod.fst).Nodup)
    (accesses : EntryId → Nat) (ghosts : History κ Nat) :
    (bury accesses out ghosts).capacity = ghosts.capacity ∧
      (bury accesses out ghosts).toList = (toldOf accesses out ghosts).rtake ghosts.capacity := by
  -- the latest row is the last of the list, so the induction is from the end
  induction out using List.reverseRecOn with
  | nil =>
    refine ⟨rfl, ?_⟩
    rw [rtake_of_length_le]
    · simp [bury, toldOf]
    · simpa [toldOf] using ghosts.length_toList_le
  | append_singleton out x ih =>
    rw [List.map_append, List.nodup_append] at hnodup
    obtain ⟨hout, _, hnew⟩ := hnodup
    obtain ⟨hcapacity, hlist⟩ := ih hout
    have hx : x.1 ∉ out.map Prod.fst := fun hmem => hnew x.1 hmem x.1 (by simp) rfl
    have hbury : bury accesses (out ++ [x]) ghosts
        = ((bury accesses out ghosts).insert x.1 (accesses x.2.value)).2 := by
      rw [bury, List.foldl_append]
      rfl
    rw [hbury, History.capacity_insert, History.toList_insert_eq_rtake, hcapacity, hlist, toldOf_concat hx]
    exact ⟨rfl, History.rtake_told_rtake (nodup_toldOf hout accesses ghosts) (x.1, accesses x.2.value) _⟩

/-! ## What an eviction is -/

/-- An eviction down to limits takes the rows `out` out of a pool and leaves `p'`. -/
structure EvictsShortest (p : Pool κ) (accesses : EntryId → Nat) (maxCount maxSize : Nat)
    (out : List (κ × Sized EntryId)) (p' : Pool κ) : Prop where
  trimTo_eq : p.trimTo accesses maxCount maxSize = (out.map (·.2.value), p')
  /-- The turns come to an end, here and nowhere else. -/
  ends : ∀ ids q, Turns accesses maxCount maxSize p ids q ↔ ids = out.map (·.2.value) ∧ q = p'
  shortest : ShortestPrefix maxCount maxSize p.entries.toList out p'.entries.toList
  /-- The other rows stay in their order, and the count and the size of the pool are theirs. -/
  rest : p'.entries.Represents (p.entries.toList.drop out.length)
  /-- The ghosts are told of every key as its row goes. -/
  buried : p'.ghosts = bury accesses out p.ghosts
  remembers : p'.ghosts.toList = (toldOf accesses out p.ghosts).rtake p.ghosts.capacity
  capacity_eq : p'.ghosts.capacity = p.ghosts.capacity
  /-- What they know of other keys, they knew before. -/
  others : ∀ e ∈ p'.ghosts.toList, e.1 ∉ out.map Prod.fst → e ∈ p.ghosts.toList
  /-- They forget what there is no room for beside all that is newer, and nothing else. -/
  ages : ∀ older e newer, toldOf accesses out p.ghosts = older ++ e :: newer →
    (e ∈ p'.ghosts.toList ↔ newer.length < p.ghosts.capacity)

omit [Key κ] in
theorem ShortestPrefix.rest_eq {rows out rest : List (κ × Sized EntryId)}
    (h : ShortestPrefix maxCount maxSize rows out rest) : rest = rows.drop out.length := by
  rw [h.split, List.drop_left]

/-- The rows that go out of a pool have different keys, as all of its rows. -/
theorem ShortestPrefix.nodup_keys {out rest : List (κ × Sized EntryId)}
    (h : ShortestPrefix maxCount maxSize p.entries.toList out rest) : (out.map Prod.fst).Nodup := by
  have hrows := p.entries.nodup_keys
  rw [SizedMap.keys_eq, h.split] at hrows
  exact hrows.sublist ((List.sublist_append_left _ _).map Prod.fst)

theorem exists_evictsShortest (p : Pool κ) (accesses : EntryId → Nat) (maxCount maxSize : Nat) :
    ∃ out p', p.EvictsShortest accesses maxCount maxSize out p' := by
  obtain ⟨out, hids, hshortest, hghosts⟩ := p.trimTo_spec accesses maxCount maxSize
  generalize hp' : (p.trimTo accesses maxCount maxSize).2 = p' at hshortest hghosts
  have htrim : p.trimTo accesses maxCount maxSize = (out.map (·.2.value), p') := Prod.ext hids hp'
  -- no key leaves twice, so each of the new ghosts stays in its place
  have hkeys := hshortest.nodup_keys
  obtain ⟨hcapacity, hremembers⟩ := toList_bury hkeys accesses p.ghosts
  rw [← hghosts] at hcapacity hremembers
  refine ⟨out, p', ?_⟩
  constructor
  case trimTo_eq => exact htrim
  case ends =>
    intro ids q
    rw [turns_iff, htrim, Prod.mk.injEq, eq_comm, eq_comm (a := p')]
  case shortest => exact hshortest
  case rest =>
    rw [← hshortest.rest_eq]
    exact p'.entries.represents_toList
  case buried => exact hghosts
  case remembers => exact hremembers
  case capacity_eq => exact hcapacity
  case others =>
    intro e he hother
    rw [hremembers] at he
    exact mem_of_mem_toldOf (List.mem_of_mem_drop he) hother
  case ages =>
    intro older e newer hsplit
    rw [hremembers]
    exact mem_rtake_iff (nodup_toldOf hkeys accesses p.ghosts).of_map hsplit _

/-- Whatever is in a pool and whatever the limits are: an eviction takes out what has to go and no more, tells the
ghosts of it, and makes no difference between limits that come together and limits that come one after the
other. -/
theorem evicts_shortest (p : Pool κ) (accesses : EntryId → Nat) (count₁ size₁ : Nat) :
    (∃ out p', p.EvictsShortest accesses count₁ size₁ out p') ∧
      ∀ count₂ size₂, p.trimTo accesses (min count₁ count₂) (min size₁ size₂) =
        ((p.trimTo accesses count₁ size₁).1 ++
            ((p.trimTo accesses count₁ size₁).2.trimTo accesses count₂ size₂).1,
          ((p.trimTo accesses count₁ size₁).2.trimTo accesses count₂ size₂).2) := by
  refine ⟨p.exists_evictsShortest accesses count₁ size₁, fun count₂ size₂ => ?_⟩
  exact p.trimTo_trimTo accesses count₁ size₁ count₂ size₂

/-- A pool of four entries, the first and the third of no size, that has room for the ghosts of two. -/
def unevenPool : Pool Nat :=
  Pool.empty 2
    |>.put 0 { key := 1, value := 0, size := 0 }
    |>.put 1 { key := 2, value := 1, size := 3 }
    |>.put 2 { key := 3, value := 2, size := 0 }
    |>.put 3 { key := 4, value := 3, size := 9 }

/-- Nine bytes have room for the last two entries. A size of eight costs all of them, and the ghosts forget the
first two. -/
example : (unevenPool.trimTo id 4 9).1 = [0, 1] ∧ (unevenPool.trimTo id 4 9).2.keys = [3, 4] ∧
    (unevenPool.trimTo id 4 8).1 = [0, 1, 2, 3] ∧
    (unevenPool.trimTo id 4 8).2.ghosts.toList = [(3, 2), (4, 3)] := by
  decide +kernel

end Pool

end RefCache
