import RefCache.Proofs.Budget.Room
import RefCache.Proofs.Stack.SingleQueue

/-!
# Reading is refreshing

In a single queue, a request whose reference is dropped again does what a probe of the same key does: what is
found, if nobody else holds it, comes to the end of the queue, and nothing else changes but counts
(`Cache.ReadsLikeProbe`). Both the request and the release look for something to evict, and find nothing. An
entry that is taken out of the queue takes no more room while it is in use than it took there
(`Cache.WithinBudget.of_cached_eq`).
-/

namespace RefCache

universe u

variable {κ : Type u}

/-- A client that has come and gone has left a use behind. -/
theorem EntryTable.sameButUses_read (t : EntryTable κ) (id : EntryId) :
    t.SameButUses (Register.update (t.update id fun e => e.addClient.recordAccess) id Entry.dropClient) := by
  intro j
  rw [Register.get?_update, Register.get?_update]
  split
  · rename_i hj
    subst hj
    rw [if_pos rfl, Option.map_map, Option.map_map]
    rfl
  · rename_i hj
    rw [Register.get?_update, if_neg hj]

variable [Key κ]

namespace Cache

/-- What comes of a request for a key, once the reference to what was found has been dropped. -/
def read (c : Cache κ) (w w' : Surroundings) (k : κ) : Cache κ :=
  match (c.get w k).1 with
  | none => (c.get w k).2.cache
  | some id => ((c.get w k).2.cache.release w' id).cache

/-- The same is cached in the same order, held by the same clients, and the pools are the same. -/
structure SameButUses (c c' : Cache κ) : Prop where
  cached_eq : c'.cached = c.cached
  policy_eq : c'.policy = c.policy
  limits_eq : c'.limits = c.limits
  entries : c.entries.SameButUses c'.entries

/-- A request for a key and the release after it do what a probe of the key does. -/
structure ReadsLikeProbe (c : Cache κ) (w w' : Surroundings) (k : κ) : Prop where
  get_evicts : (⟨c, .get w k⟩ : Asked κ).evicted = []
  release_evicts : ∀ id, (c.get w k).1 = some id →
    (⟨(c.get w k).2.cache, .release w' id⟩ : Asked κ).evicted = []
  same : (c.probe k).cache.SameButUses (c.read w w' k)
  /-- A probe changes the queue at most. -/
  probe_eq : (c.probe k).cache = { c with policy := (c.probe k).cache.policy }
  /-- There the key comes to the end, if it is there. -/
  probe_items : (c.probe k).cache.policy.items = refreshed k c.policy.items

variable {c c' c'' : Cache κ} {w w' : Surroundings} {k : κ} {id : EntryId}

/-! ## The same but for uses -/

theorem SameButUses.symm (h : c.SameButUses c') : c'.SameButUses c :=
  ⟨h.cached_eq.symm, h.policy_eq.symm, h.limits_eq.symm, h.entries.symm⟩

theorem SameButUses.trans (h : c.SameButUses c') (h' : c'.SameButUses c'') : c.SameButUses c'' :=
  ⟨h'.cached_eq.trans h.cached_eq, h'.policy_eq.trans h.policy_eq, h'.limits_eq.trans h.limits_eq,
    fun id => (h'.entries id).trans (h.entries id)⟩

theorem SameButUses.keepsOrphans (h : c.SameButUses c') {base : List EntryId} (hkept : c.KeepsOrphans base) :
    c'.KeepsOrphans base := by
  intro id e' he' horphan hclients
  obtain ⟨e, he, heq⟩ := h.entries.symm.get? he'
  obtain ⟨_, _, horphan', hclients'⟩ := Entry.eq_of_withoutUses heq
  exact hkept id e he (by rw [horphan', horphan]) (by rw [hclients', hclients])

/-- Where no orphan is kept there is nothing to forget. -/
theorem Forgets.sameButUses (h : c.Forgets c') (hkept : c.KeepsOrphans []) : c.SameButUses c' := by
  refine ⟨h.cached_eq, h.policy_eq, h.limits_eq, fun id => ?_⟩
  cases he' : c'.entries.get? id with
  | some e => rw [h.entries.kept id e he']
  | none =>
    cases he : c.entries.get? id with
    | none => rfl
    | some e =>
      obtain ⟨horphan, hclients⟩ := h.entries.lost id e he he'
      exact nomatch hkept id e he horphan hclients

/-! ## One operation, while no limits are due -/

theorem beforeEviction_get_of_cached (hdue : c.reloadDue w.now = false) (hget : c.cached.get? k = some id) :
    (c.beforeEviction (.get w k)).cache = { c with
      policy := (c.policy.remove k).2
      entries := c.entries.update id fun e => e.addClient.recordAccess
      counters := c.counters.recordHit (c.entries.size id) } := by
  have hunqueue := c.start.cache_unqueue k
  unfold beforeEviction
  dsimp only
  rw [Transition.cached_unqueue_start, hget]
  dsimp only
  -- on a hit the entry is out of the queue, in use once more, and has one use more
  have hhit : ((c.start.unqueue k).2.hit id).cache = { (c.start.unqueue k).2.cache with
      entries := (c.start.unqueue k).2.cache.entries.update id fun e => e.addClient.recordAccess
      counters := (c.start.unqueue k).2.cache.counters.recordHit
        ((c.start.unqueue k).2.cache.entries.size id) } := rfl
  rw [hunqueue] at hhit
  rw [Transition.reload_of_not_due (by rw [hhit]; exact hdue), hhit]
  rfl

theorem beforeEviction_get_of_missed (hdue : c.reloadDue w.now = false) (hget : c.cached.get? k = none) :
    (c.beforeEviction (.get w k)).cache = { c with
      policy := (c.policy.remove k).2.onMiss k
      counters := c.counters.recordMiss } := by
  have hunqueue := c.start.cache_unqueue k
  unfold beforeEviction
  dsimp only
  rw [Transition.cached_unqueue_start, hget]
  dsimp only
  have hmiss : ((c.start.unqueue k).2.miss k).cache = { (c.start.unqueue k).2.cache with
      policy := (c.start.unqueue k).2.cache.policy.onMiss k
      counters := (c.start.unqueue k).2.cache.counters.recordMiss } := rfl
  rw [hunqueue] at hmiss
  rw [Transition.reload_of_not_due (by rw [hmiss]; exact hdue), hmiss]
  rfl

theorem beforeEviction_release (hdue : c.reloadDue w.now = false) {e : Entry κ}
    (he : c.entries.get? id = some e) :
    (c.beforeEviction (.release w id)).cache = { c with
      policy := if e.dropClient.clients = 0 ∧ e.orphan = false then c.policy.enqueue id e.dropClient
        else c.policy
      entries := c.entries.update id Entry.dropClient } := by
  let t := c.start.updateEntry id Entry.dropClient
  have hdropped : t.cache.entries.get? id = some e.dropClient := by
    show Register.get? (c.entries.update id Entry.dropClient) id = _
    rw [Register.get?_update, if_pos rfl, he]
    rfl
  show ((t.settle id).reload w).cache = _
  by_cases hidle : e.dropClient.clients = 0 ∧ e.orphan = false
  · rw [Transition.settle_of_idle hdropped hidle, Transition.reload_of_not_due (by exact hdue), if_pos hidle]
    rfl
  · rw [Transition.settle_of_not_idle hdropped hidle, Transition.reload_of_not_due (by exact hdue), if_neg hidle]
    rfl

/-! ## A single queue -/

end Cache

namespace Policy

variable {p : Policy κ} {table : EntryTable κ} {k : κ} {id : EntryId}

theorem onMiss_of_learns_nothing (h : p.knowledge? = none) (k : κ) : p.onMiss k = p := by
  obtain ⟨queue, rfl⟩ := exists_queue h
  rfl

/-- For its place in a single queue, key and size of an entry are all that counts. -/
theorem enqueue_congr (h : p.knowledge? = none) (e e' : Entry κ) (hkey : e'.key = e.key)
    (hsize : e'.size = e.size) (id : EntryId) : p.enqueue id e' = p.enqueue id e := by
  obtain ⟨queue, rfl⟩ := exists_queue h
  show lru (queue.put id e') = lru (queue.put id e)
  rw [Pool.put, Pool.put, hkey, hsize]

end Policy

namespace Cache

variable {c c' : Cache κ} {w w' : Surroundings} {k : κ} {id : EntryId} {e : Entry κ}

/-- What leaves the cached entries as they are, and does not let the queue grow, leaves room in it. -/
theorem HasRoom.of_cached_eq (h : c.HasRoom) (howned : c.Owned) (hlearns : c.policy.knowledge? = none)
    (hlearns' : c'.policy.knowledge? = none) (hcached : c'.cached = c.cached)
    (hlimits : c'.limits = c.limits) (hcount : c'.policy.count ≤ c.policy.count)
    (hsize : c'.policy.size ≤ c.policy.size) : c'.HasRoom :=
  (hasRoom_iff_withinBudget hlearns').2
    (((hasRoom_iff_withinBudget hlearns).1 h).of_cached_eq howned hcached hlimits hcount hsize)

namespace OwnedExcept

variable (howned : c.Owned) (hlearns : c.policy.knowledge? = none)

include howned hlearns

/-- A probe of a single queue changes nothing else. -/
theorem probe_queue (k : κ) : (c.probe k).cache = { c with policy := c.policyAfter (.probe k) } := by
  have htable : (c.policy.probe c.entries k).2 = c.entries := by
    cases hfound : (c.policy.remove k).1 with
    | none => rw [Policy.probe_of_absent hfound]
    | some id =>
      obtain ⟨e, he, _⟩ := howned.mem_cached_of_get? (howned.remove_eq_some_iff.1 hfound).1
      rw [Policy.probe_of_found hlearns hfound he]
  show ({ c with
    policy := (c.policy.probe c.entries k).1
    entries := (c.policy.probe c.entries k).2 } : Cache κ) = _
  rw [htable]
  rfl

/-- What was taken out of the queue while it was in use comes to its end, or stays out of it, as a probe would
have it. -/
theorem policy_release_of_get (hget : c.cached.get? k = some id) (he : c.entries.get? id = some e) :
    (if e.addClient.recordAccess.dropClient.clients = 0 ∧ e.addClient.recordAccess.orphan = false then
      (c.policy.remove k).2.enqueue id e.addClient.recordAccess.dropClient
    else (c.policy.remove k).2) = c.policyAfter (.probe k) := by
  obtain ⟨e₀, he₀, _, horphan, _⟩ := howned.mem_cached_of_get? hget
  obtain rfl : e₀ = e := Option.some.inj (he₀.symm.trans he)
  have hlearns' : (c.policy.remove k).2.knowledge? = none := (Policy.knowledge?_remove _ _).trans hlearns
  have hsame : (c.policy.remove k).2.enqueue id e₀.addClient.recordAccess.dropClient
      = (c.policy.remove k).2.enqueue id e₀ :=
    Policy.enqueue_congr hlearns' e₀ e₀.addClient.recordAccess.dropClient rfl rfl id
  have hclients := EntryTable.clients_of_get? he
  show _ = (c.policy.probe c.entries k).1
  -- if nobody else holds the entry, both ways put it at the end of the queue
  by_cases hzero : e₀.clients = 0
  · have hfound : (c.policy.remove k).1 = some id :=
      howned.remove_eq_some_iff.2 ⟨hget, hclients.trans hzero⟩
    rw [Policy.probe_of_found hlearns hfound he, if_pos ⟨hzero, horphan⟩, hsame]
  · -- if somebody else does, neither way finds it in the queue
    have hnone : (c.policy.remove k).1 = none := by
      cases hfound : (c.policy.remove k).1 with
      | none => rfl
      | some id' =>
        obtain ⟨hget', hzero'⟩ := howned.remove_eq_some_iff.1 hfound
        obtain rfl : id' = id := Option.some.inj (hget'.symm.trans hget)
        exact absurd (hclients.symm.trans hzero') hzero
    rw [Policy.probe_of_absent hnone, if_neg fun hidle => hzero hidle.1]

variable (hroom : c.HasRoom)

include hroom

/-- A queue with the same entries in another order has the same room. -/
theorem hasRoom_of_probed (hpolicy : c'.policy = c.policyAfter (.probe k)) (hcached : c'.cached = c.cached)
    (hlimits : c'.limits = c.limits) : c'.HasRoom := by
  have hperm : c'.policy.items.Perm c.policy.items := by
    rw [hpolicy]
    refine Policy.items_probe _ _ _ howned.nodup_item_keys fun x hx => ?_
    obtain ⟨e, he, hkey, hsize, _⟩ := howned.entry_of_cached x (howned.cached_of_item hx)
    exact ⟨e, he, hkey, hsize⟩
  refine hroom.of_cached_eq howned hlearns ?_ hcached hlimits ?_ ?_
  · rw [hpolicy]
    exact Asked.learns_nothing_after (x := ⟨c, .probe k⟩) hlearns
  · rw [Policy.count_eq_length, Policy.count_eq_length, hperm.length_eq]
  · rw [Policy.size_eq_totalOf, Policy.size_eq_totalOf, totalOf_perm _ hperm]

theorem readsLikeProbe_of_missed (hdue : c.reloadDue w.now = false) (hget : c.cached.get? k = none) :
    c.ReadsLikeProbe w w' k := by
  -- what is not cached is not in the queue either
  have hnone : (c.policy.remove k).1 = none := by
    cases hfound : (c.policy.remove k).1 with
    | none => rfl
    | some id => exact nomatch hget.symm.trans (howned.remove_eq_some_iff.1 hfound).1
  have hprobe : c.policyAfter (.probe k) = (c.policy.remove k).2 :=
    congrArg Prod.fst (Policy.probe_of_absent hnone _)
  have hfound : (c.get w k).1 = none := (get_fst _ _ _).trans hget
  have hlearns' : (c.policy.remove k).2.knowledge? = none := (Policy.knowledge?_remove _ _).trans hlearns
  have hbefore := beforeEviction_get_of_missed hdue hget
  rw [Policy.onMiss_of_learns_nothing hlearns', ← hprobe] at hbefore
  -- a miss leaves the queue as it is, so nothing is evicted
  have hroom' : (c.beforeEviction (.get w k)).cache.HasRoom := by
    rw [hbefore]
    exact hasRoom_of_probed howned hlearns hroom rfl rfl rfl
  have hread : c.read w w' k = (c.beforeEviction (.get w k)).cache := by
    unfold read
    rw [hfound]
    exact cache_apply_of_hasRoom hroom'
  -- nothing is evicted, nothing is handed out, and the cache is as a probe leaves it
  constructor
  · exact evicted_of_hasRoom trivial hroom'
  · exact fun id hid => nomatch hfound.symm.trans hid
  · rw [hread, hbefore, probe_queue howned hlearns k]
    exact ⟨rfl, rfl, rfl, .refl _⟩
  · exact probe_queue howned hlearns k
  · exact items_policyAfter_probe howned hlearns k

theorem readsLikeProbe_of_cached (hdue : c.reloadDue w.now = false) (hdue' : c.reloadDue w'.now = false)
    (hget : c.cached.get? k = some id) : c.ReadsLikeProbe w w' k := by
  obtain ⟨e, he, _⟩ := howned.mem_cached_of_get? hget
  have hfound : (c.get w k).1 = some id := (get_fst _ _ _).trans hget
  -- while the entry is in use the queue is without it
  have hbefore := beforeEviction_get_of_cached hdue hget
  have hroom₁ : (c.beforeEviction (.get w k)).cache.HasRoom := by
    rw [hbefore]
    exact hroom.of_cached_eq howned hlearns ((Policy.knowledge?_remove _ _).trans hlearns) rfl rfl
      (c.policy.count_remove_le k) (c.policy.size_remove_le k)
  have hgot : (c.get w k).2.cache = { c with
      policy := (c.policy.remove k).2
      entries := c.entries.update id fun e => e.addClient.recordAccess
      counters := c.counters.recordHit (c.entries.size id) } :=
    (cache_apply_of_hasRoom hroom₁).trans hbefore
  have he₁ : (c.get w k).2.cache.entries.get? id = some e.addClient.recordAccess := by
    rw [hgot]
    show Register.get? (c.entries.update id _) id = _
    rw [Register.get?_update, if_pos rfl, he]
    rfl
  -- and then it is where a probe would have put it
  have hdue₁ : (c.get w k).2.cache.reloadDue w'.now = false := by
    rw [hgot]
    exact hdue'
  have hreleased := beforeEviction_release hdue₁ he₁
  have hpolicy : ((c.get w k).2.cache.beforeEviction (.release w' id)).cache.policy
      = c.policyAfter (.probe k) := by
    rw [hreleased, ← policy_release_of_get howned hlearns hget he, hgot]
  have hroom₂ : ((c.get w k).2.cache.beforeEviction (.release w' id)).cache.HasRoom :=
    hasRoom_of_probed howned hlearns hroom hpolicy (by rw [hreleased, hgot]) (by rw [hreleased, hgot])
  have hread : c.read w w' k = ((c.get w k).2.cache.beforeEviction (.release w' id)).cache := by
    unfold read
    rw [hfound]
    exact cache_apply_of_hasRoom hroom₂
  constructor
  · exact evicted_of_hasRoom trivial hroom₁
  · intro id' hid'
    obtain rfl : id' = id := Option.some.inj (hid'.symm.trans hfound)
    exact evicted_of_hasRoom trivial hroom₂
  · rw [hread, probe_queue howned hlearns k]
    refine ⟨by rw [hreleased, hgot], hpolicy, by rw [hreleased, hgot], ?_⟩
    rw [hreleased, hgot]
    exact EntryTable.sameButUses_read _ id
  · exact probe_queue howned hlearns k
  · exact items_policyAfter_probe howned hlearns k

/-- In a single queue with room for its entries, reading is refreshing. -/
theorem readsLikeProbe (hdue : c.reloadDue w.now = false) (hdue' : c.reloadDue w'.now = false) (k : κ) :
    c.ReadsLikeProbe w w' k := by
  cases hget : c.cached.get? k with
  | none => exact readsLikeProbe_of_missed howned hlearns hroom hdue hget
  | some id => exact readsLikeProbe_of_cached howned hlearns hroom hdue hdue' hget

end OwnedExcept

end Cache

end RefCache
