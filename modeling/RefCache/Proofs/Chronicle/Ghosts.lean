import Mathlib.Data.List.Basic
import RefCache.Proofs.Chronicle.Halves
import RefCache.Proofs.Chronicle.Remembering

/-!
# What operations tell the ghosts

The ghosts of a half are told of every entry that a limit or a trim makes the half give up, and of every
request in vain; those of the MFU half only if the LFU ghosts do not know the key
(`Asked.ghostEvents`). They note nothing else (`Asked.Ready.ghosts_after`).
-/

namespace RefCache

universe u

variable {κ : Type u} [Key κ]

namespace Pool

/-- Ghosts note what is buried. -/
theorem bury_eq (accesses : EntryId → Nat) (out : List (κ × Sized EntryId)) (ghosts : History κ Nat) :
    bury accesses out ghosts
      = (out.map fun x => GhostEvent.evicted x.1 (accesses x.2.value)).foldl History.note ghosts := by
  rw [bury, List.foldl_map]
  rfl

end Pool

namespace Policy

/-- The ghosts of one of the halves; a single queue has none. -/
def ghosts? : Policy κ → Half → Option (History κ Nat)
  | lru _, _ => none
  | adaptive a, half => some (a.pool half).ghosts

/-- Whether the LFU ghosts know a key. -/
def lfuRemembers (p : Policy κ) (k : κ) : Bool :=
  match p.ghosts? .lfu with
  | none => false
  | some ghosts => ghosts.contains k

/-- What the ghosts of a half are told when somebody asks for a key in vain. -/
def toldOfMiss (p : Policy κ) (k : κ) : Half → List (GhostEvent κ)
  | .lfu => [.missed k]
  | .mfu => if p.lfuRemembers k then [] else [.missed k]

/-- What the ghosts of a half are told when the policy gives up entries. -/
def toldOfEviction (p : Policy κ) (table : EntryTable κ) (ids : List EntryId) (half : Half) :
    List (GhostEvent κ) :=
  (ids.filter (· ∈ p.idsOf half)).filterMap fun id =>
    (table.get? id).map fun e => .evicted e.key e.accesses

/-! ## Nothing to tell -/

@[simp] theorem ghosts?_remove (p : Policy κ) (k : κ) (half : Half) :
    (p.remove k).2.ghosts? half = p.ghosts? half := by
  cases p with
  | lru queue => rfl
  | adaptive a => cases half <;> rfl

@[simp] theorem ghosts?_removeAll (p : Policy κ) (pred : Predicate κ) (asked : List κ) (half : Half) :
    (p.removeAll pred asked).2.ghosts? half = p.ghosts? half := by
  cases p with
  | lru queue => rfl
  | adaptive a => cases half <;> rfl

@[simp] theorem ghosts?_emptied (p : Policy κ) (half : Half) : p.emptied.ghosts? half = p.ghosts? half := by
  cases p with
  | lru queue => rfl
  | adaptive a => cases half <;> rfl

@[simp] theorem ghosts?_enqueue (p : Policy κ) (id : EntryId) (e : Entry κ) (half : Half) :
    (p.enqueue id e).ghosts? half = p.ghosts? half := by
  cases p with
  | lru queue => rfl
  | adaptive a =>
    show (adaptive (a.enqueue id e)).ghosts? half = _
    unfold Adaptive.enqueue
    split <;> cases half <;> rfl

@[simp] theorem ghosts?_probe (p : Policy κ) (table : EntryTable κ) (k : κ) (half : Half) :
    (p.probe table k).1.ghosts? half = p.ghosts? half := by
  rcases p.probe_fst_cases table k with heq | ⟨id, e, _, heq⟩
  · rw [heq]
    exact p.ghosts?_remove k half
  · rw [heq, ghosts?_enqueue, ghosts?_remove]

/-! ## Misses -/

/-- A miss is noted where it is told. -/
theorem ghosts?_onMiss (p : Policy κ) (k : κ) (half : Half) : (p.onMiss k).ghosts? half
    = (p.ghosts? half).map fun ghosts => (p.toldOfMiss k half).foldl History.note ghosts := by
  cases p with
  | lru queue => rfl
  | adaptive a =>
    cases half with
    | lfu =>
      show some (a.onMiss k).lfu.ghosts = _
      rw [a.lfu_onMiss]
      rfl
    | mfu =>
      -- these ghosts hear of a miss only if those of the other half do not know the key
      show some (a.onMiss k).mfu.ghosts = _
      rw [a.mfu_onMiss, ← History.contains_eq_isSome]
      show _ = some ((if a.lfu.ghosts.contains k then [] else [GhostEvent.missed k]).foldl History.note
        a.mfu.ghosts)
      split <;> rfl

theorem toldOfMiss_remove (p : Policy κ) (k k' : κ) (half : Half) :
    (p.remove k').2.toldOfMiss k half = p.toldOfMiss k half := by
  have hremembers : (p.remove k').2.lfuRemembers k = p.lfuRemembers k := by
    rw [lfuRemembers, ghosts?_remove, lfuRemembers]
  cases half with
  | lfu => rfl
  | mfu => rw [toldOfMiss, toldOfMiss, hremembers]

/-! ## Evictions -/

/-- The table knows the exclusive entries under their keys, and no entry is exclusive twice. -/
structure Listed (table : EntryTable κ) (p : Policy κ) : Prop where
  nodup : p.ids.Nodup
  entry : ∀ x ∈ p.items, ∃ e, table.get? x.2.value = some e ∧ e.key = x.1

variable {table : EntryTable κ} {a a' : Adaptive κ}

/-- What is exclusive in one half is not in the other. -/
theorem Listed.disjoint (h : (adaptive a).Listed table) {half other : Half} (hne : half ≠ other) {id : EntryId}
    (hid : id ∈ (adaptive a).idsOf half) : id ∉ (adaptive a).idsOf other := by
  have hids : (adaptive a).ids = a.lfu.ids ++ a.mfu.ids := by simp [ids, pools]
  have hdisjoint := (List.nodup_append.1 (hids ▸ h.nodup)).2.2
  intro hother
  cases half with
  | lfu =>
    cases other with
    | lfu => exact hne rfl
    | mfu => exact hdisjoint id hid id hother rfl
  | mfu =>
    cases other with
    | lfu => exact hdisjoint id hother id hid rfl
    | mfu => exact hne rfl

/-- When rows of both pools are given up, the ghosts of either half are told of its own. -/
theorem toldOfEviction_eq (h : (adaptive a).Listed table) {out : Half → List (κ × Sized EntryId)}
    (hout : ∀ half, out half ⊆ (a.pool half).entries.toList) (half : Half) :
    (adaptive a).toldOfEviction table ((out .lfu ++ out .mfu).map (·.2.value)) half
      = (out half).map fun x => .evicted x.1 (table.accesses x.2.value) := by
  have hmem : ∀ half, ∀ x ∈ out half, x.2.value ∈ (adaptive a).idsOf half := fun half x hx =>
    List.mem_map_of_mem (hout half hx)
  have hown : ((out half).map (·.2.value)).filter (· ∈ (adaptive a).idsOf half)
      = (out half).map (·.2.value) := by
    rw [List.filter_eq_self]
    simp only [List.mem_map, decide_eq_true_eq]
    rintro _ ⟨x, hx, rfl⟩
    exact hmem half x hx
  -- what the other half gives up was never in this one
  have hforeign : ∀ other, other ≠ half →
      ((out other).map (·.2.value)).filter (· ∈ (adaptive a).idsOf half) = [] := by
    intro other hne
    rw [List.filter_eq_nil_iff]
    simp only [List.mem_map, decide_eq_true_eq]
    rintro _ ⟨x, hx, rfl⟩
    exact h.disjoint hne (hmem other x hx)
  have hfilter : ((out .lfu ++ out .mfu).map (·.2.value)).filter (· ∈ (adaptive a).idsOf half)
      = (out half).map (·.2.value) := by
    rw [List.map_append, List.filter_append]
    cases half with
    | lfu => rw [hown, hforeign .mfu (by simp), List.append_nil]
    | mfu => rw [hown, hforeign .lfu (by simp), List.nil_append]
  rw [toldOfEviction, hfilter, List.filterMap_map]
  -- the table knows the rows
  have hknown : ∀ x ∈ out half, ∃ e, table.get? x.2.value = some e ∧ e.key = x.1 := by
    intro x hx
    refine h.entry x ?_
    rw [items_adaptive]
    cases half with
    | lfu => exact List.mem_append_left _ (hout .lfu hx)
    | mfu => exact List.mem_append_right _ (hout .mfu hx)
  rw [← List.filterMap_eq_map]
  refine List.filterMap_congr fun x hx => ?_
  obtain ⟨e, he, hkey⟩ := hknown x hx
  simp only [Function.comp_apply, he, Option.map_some, hkey, EntryTable.accesses_of_get? he]

/-- When both pools give up what is too much, the ghosts note what they are told of it. -/
private theorem ghosts?_of_trims (h : (adaptive a).Listed table) {count size : Half → Nat}
    (ha' : ∀ half, a'.pool half = ((a.pool half).trimTo table.accesses (count half) (size half)).2)
    {ids : List EntryId} (hids : ids = (a.lfu.trimTo table.accesses (count .lfu) (size .lfu)).1
      ++ (a.mfu.trimTo table.accesses (count .mfu) (size .mfu)).1) (half : Half) :
    (adaptive a').ghosts? half = ((adaptive a).ghosts? half).map fun ghosts =>
      ((adaptive a).toldOfEviction table ids half).foldl History.note ghosts := by
  have hspec := fun half => (a.pool half).trimTo_spec table.accesses (count half) (size half)
  let out : Half → List (κ × Sized EntryId) := fun half => (hspec half).choose
  have hout := fun half => (hspec half).choose_spec
  have hrows : ∀ half, out half ⊆ (a.pool half).entries.toList := by
    intro half
    rw [(hout half).2.1.split]
    exact List.subset_append_left _ _
  have hgone : ids = (out .lfu ++ out .mfu).map (·.2.value) := by
    rw [hids, List.map_append]
    exact congr (congrArg _ (hout .lfu).1) (hout .mfu).1
  -- what each half gives up is told to its own ghosts
  rw [hgone, toldOfEviction_eq h hrows half]
  show some (a'.pool half).ghosts = some _
  rw [ha', (hout half).2.2, Pool.bury_eq]

/-- An eviction is noted as it is told. -/
theorem ghosts?_evict {p : Policy κ} (h : p.Listed table) (maxCount maxSize : Nat) (half : Half) :
    (p.evict table.accesses maxCount maxSize).2.ghosts? half = (p.ghosts? half).map fun ghosts =>
      (p.toldOfEviction table (p.evict table.accesses maxCount maxSize).1 half).foldl History.note ghosts := by
  cases p with
  | lru queue => rfl
  | adaptive a =>
    -- each half is trimmed to its own share
    let count : Half → Nat
      | .lfu => share maxCount a.fraction
      | .mfu => maxCount - share maxCount a.fraction
    let size : Half → Nat
      | .lfu => share maxSize a.fraction
      | .mfu => maxSize - share maxSize a.fraction
    have hpools : ∀ half, (a.evict table.accesses maxCount maxSize).2.pool half
        = ((a.pool half).trimTo table.accesses (count half) (size half)).2 := by
      intro half
      cases half <;> rfl
    exact ghosts?_of_trims h hpools rfl half

/-- And so is a trim. -/
theorem ghosts?_trim {p : Policy κ} (h : p.Listed table) (target : Nat) (half : Half) :
    (p.trim table.accesses target).2.ghosts? half = (p.ghosts? half).map fun ghosts =>
      (p.toldOfEviction table (p.trim table.accesses target).1 half).foldl History.note ghosts := by
  cases p with
  | lru queue => rfl
  | adaptive a =>
    let size : Half → Nat
      | .lfu => (a.trimTargets target).1
      | .mfu => (a.trimTargets target).2
    have hpools : ∀ half, (a.trim table.accesses target).2.pool half
        = ((a.pool half).trimTo table.accesses (a.pool half).count (size half)).2 := by
      intro half
      cases half <;> rfl
    exact ghosts?_of_trims h hpools rfl half

end Policy

/-- What a cache owns, its policy lists. -/
theorem Cache.OwnedExcept.listed {c : Cache κ} (h : c.Owned) : c.policy.Listed c.entries where
  nodup := h.nodup_ids
  entry := by
    intro x hx
    obtain ⟨e, he, hkey, _⟩ := h.entry_of_cached x (h.cached_of_item hx)
    exact ⟨e, he, hkey⟩

/-! ## Operations -/

namespace Asked

/-- What the ghosts of a half are told of a trim. -/
def toldOfTrim (x : Asked κ) (half : Half) : List (GhostEvent κ) :=
  match x.op with
  | .trim _ _ ratio =>
    x.cache.policy.toldOfEviction x.cache.entries
      (x.cache.policy.trim x.cache.entries.accesses (x.cache.trimTarget ratio)).1 half
  | _ => []

/-- What they are told of a request in vain. -/
def toldOfMiss (x : Asked κ) (half : Half) : List (GhostEvent κ) :=
  match x.cache.missed x.op with
  | none => []
  | some k => x.cache.policy.toldOfMiss k half

/-- What they are told of the eviction at the end. -/
def toldOfLimits (x : Asked κ) (half : Half) : List (GhostEvent κ) :=
  if x.op.evicts then
    let t := x.cache.beforeEviction x.op
    t.cache.policy.toldOfEviction t.cache.entries t.evicted.1 half
  else []

/-- What the ghosts of a half are told of an operation, in this order. -/
def ghostEvents (half : Half) (x : Asked κ) : List (GhostEvent κ) :=
  x.toldOfTrim half ++ x.toldOfMiss half ++ x.toldOfLimits half

variable {x : Asked κ}

/-- What the ghosts note until the operation evicts. -/
theorem Ready.ghosts_policyAfter (h : x.Ready) (half : Half) : (x.cache.policyAfter x.op).ghosts? half
    = (x.cache.policy.ghosts? half).map fun ghosts =>
      (x.toldOfTrim half ++ x.toldOfMiss half).foldl History.note ghosts := by
  obtain ⟨c, op⟩ := x
  -- most operations tell the ghosts nothing before they evict
  have hquiet : ∀ {p : Policy κ}, toldOfTrim ⟨c, op⟩ half = [] → toldOfMiss ⟨c, op⟩ half = [] →
      p.ghosts? half = c.policy.ghosts? half → p.ghosts? half = (c.policy.ghosts? half).map fun ghosts =>
        (toldOfTrim ⟨c, op⟩ half ++ toldOfMiss ⟨c, op⟩ half).foldl History.note ghosts := by
    intro p htrim hmiss hsame
    rw [htrim, hmiss, hsame]
    exact Option.map_id'.symm
  cases op with
  | store s k value size observer =>
    refine hquiet rfl rfl ?_
    unfold Cache.policyAfter
    dsimp only
    -- a value that is turned down leaves the policy alone
    split
    · rfl
    · exact c.policy.ghosts?_remove k half
  | get s k =>
    cases hget : c.cached.get? k with
    | none =>
      have hmissed : toldOfMiss ⟨c, .get s k⟩ half = c.policy.toldOfMiss k half := by
        simp only [toldOfMiss, Cache.missed, Cache.get_fst, hget]
      rw [hmissed]
      show (c.policyAfter (.get s k)).ghosts? half = _
      simp only [Cache.policyAfter, hget]
      rw [Policy.ghosts?_onMiss, Policy.ghosts?_remove, Policy.toldOfMiss_remove]
      rfl
    | some id =>
      refine hquiet rfl ?_ ?_
      · simp only [toldOfMiss, Cache.missed, Cache.get_fst, hget]
      · simp only [Cache.policyAfter, hget]
        exact c.policy.ghosts?_remove k half
  | probe k => exact hquiet rfl rfl (c.policy.ghosts?_probe c.entries k half)
  | reuse k => exact hquiet rfl rfl (c.policy.ghosts?_remove k half)
  | removeAll s p => exact hquiet rfl rfl (c.policy.ghosts?_removeAll p [] half)
  | clear s => exact hquiet rfl rfl (c.policy.ghosts?_removeAll .always [] half)
  | trim s pressure ratio =>
    have hnone : toldOfMiss ⟨c, .trim s pressure ratio⟩ half = [] := rfl
    rw [hnone, List.append_nil]
    exact Policy.ghosts?_trim h.owned.listed (c.trimTarget ratio) half
  | release s id =>
    refine hquiet rfl rfl ?_
    unfold Cache.policyAfter
    dsimp only
    split
    · rfl
    · split
      · exact c.policy.ghosts?_enqueue id _ half
      · rfl

/-- The ghosts note what they are told, and nothing else. -/
theorem Ready.ghosts_after (h : x.Ready) (half : Half) : x.after.policy.ghosts? half
    = (x.cache.policy.ghosts? half).map fun ghosts => (x.ghostEvents half).foldl History.note ghosts := by
  have hbefore := h.ghosts_policyAfter half
  rw [after, Cache.policy_apply]
  unfold ghostEvents toldOfLimits
  -- the eviction at the end tells the ghosts of what it gives up
  split
  · obtain ⟨base, horderly⟩ := h.beforeEviction
    let t := x.cache.beforeEviction x.op
    have hevict : t.evicted.2.ghosts? half = (t.cache.policy.ghosts? half).map fun ghosts =>
        (t.cache.policy.toldOfEviction t.cache.entries t.evicted.1 half).foldl History.note ghosts :=
      Policy.ghosts?_evict horderly.owned.listed _ _ half
    have hpolicy : t.cache.policy.ghosts? half = (x.cache.policyAfter x.op).ghosts? half :=
      congrArg (·.ghosts? half) (x.cache.policy_beforeEviction x.op)
    rw [hpolicy, hbefore, Option.map_map] at hevict
    simp only [List.foldl_append] at hevict ⊢
    exact hevict
  · rw [hbefore, List.append_nil]

end Asked

/-- All along, the ghosts have noted what they were told. -/
theorem Cache.Chronicle.ghosts {t : Tuning} {c c' : Cache κ} {l : List (Asked κ)} (h : c.Chronicle l c')
    (hstart : c.policy = .newAdaptive t) (hready : ∀ x ∈ l, x.Ready) (half : Half) :
    c'.policy.ghosts? half = some ((l.flatMap (Asked.ghostEvents half)).foldl History.note
      (.empty t.validated.ghostCapacity.toNat)) := by
  refine h.invariant hready ?start ?rest ?ask
  case start =>
    rw [hstart]
    cases half <;> rfl
  case rest =>
    intro l c' c'' _ _ rests ih
    -- at rest the pools can only be emptied, and their ghosts go on remembering
    rcases rests.contents with ⟨_, hpolicy⟩ | ⟨_, hpolicy⟩
    · exact hpolicy ▸ ih
    · rw [hpolicy, Policy.ghosts?_emptied]
      exact ih
  case ask =>
    intro l x _ _ hlast ih
    rw [hlast.ghosts_after, ih, Option.map_some, List.flatMap_append, List.foldl_append,
      List.flatMap_singleton]

end RefCache
