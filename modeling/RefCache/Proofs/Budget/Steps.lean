import RefCache.Proofs.Budget.Shares
import RefCache.Proofs.Ownership.Operations

/-!
# What the steps of an operation do to limits, shares and cached entries

Nothing but a reload changes the limits, no step takes the shares away, and only taking in a new value
adds to what is cached. `Transition.Keeps offered t t'` and `Transition.Moves offered t t'` say so of
the way from `t` to `t'`, on which the limits `offered` may be taken over.

* `Cache.moves_apply`: an operation that takes no new value in caches nothing else either
* `Cache.keeps_apply`: every operation leaves the shares fit
-/

namespace RefCache

universe u

variable {κ : Type u} [Key κ]

namespace Transition

/-- The limits are those of before or those offered, and the shares of the policy fit. -/
structure Keeps (offered : Option Limits) (t t' : Transition κ) : Prop where
  limits : t'.cache.limits = t.cache.limits ∨ offered = some t'.cache.limits
  shares : t.cache.policy.SharesFit → t'.cache.policy.SharesFit

/-- And nothing is cached that was not cached before. -/
structure Moves (offered : Option Limits) (t t' : Transition κ) : Prop extends
    Keeps offered t t' where
  cached : t'.cache.cached.toList.Sublist t.cache.cached.toList

variable {offered : Option Limits} {t t' t'' : Transition κ}

theorem Keeps.trans (h : Keeps offered t t') (h' : Keeps offered t' t'') : Keeps offered t t'' where
  limits := by
    rcases h'.limits with heq | hoffered
    · rw [heq]
      exact h.limits
    · exact .inr hoffered
  shares := h'.shares ∘ h.shares

theorem Moves.trans (h : Moves offered t t') (h' : Moves offered t' t'') : Moves offered t t'' :=
  ⟨h.toKeeps.trans h'.toKeeps, h'.cached.trans h.cached⟩

/-- A step that changes the policy at most. -/
theorem moves_of_eq (hlimits : t'.cache.limits = t.cache.limits)
    (hcached : t'.cache.cached = t.cache.cached)
    (hshares : t.cache.policy.SharesFit → t'.cache.policy.SharesFit) : Moves offered t t' :=
  ⟨⟨.inl hlimits, hshares⟩, hcached ▸ .refl _⟩

theorem Moves.refl (t : Transition κ) : Moves offered t t :=
  moves_of_eq rfl rfl id

/-! ## One lemma for each step -/

variable (t)

theorem moves_reload (s : Surroundings) : Moves (some s.offered) t (t.reload s) := by
  unfold reload
  split
  · exact ⟨⟨.inr rfl, id⟩, .refl _⟩
  · exact .refl t

theorem moves_unqueue (k : κ) : Moves offered t (t.unqueue k).2 := by
  unfold unqueue
  dsimp only
  split <;> exact moves_of_eq rfl rfl (·.remove k)

theorem moves_detach (k : κ) : Moves offered t (t.detach k).2 := by
  unfold detach
  split
  · exact .refl t
  · refine ⟨⟨.inl rfl, id⟩, ?_⟩
    show (t.cache.cached.erase k).toList.Sublist _
    rw [SizedMap.toList_erase]
    exact List.filter_sublist

theorem moves_orphan (id : EntryId) : Moves offered t (t.orphan id) :=
  moves_of_eq rfl rfl fun h => h

theorem moves_hit (id : EntryId) : Moves offered t (t.hit id) :=
  moves_of_eq rfl rfl fun h => h

theorem moves_miss (k : κ) : Moves offered t (t.miss k) :=
  moves_of_eq rfl rfl (·.onMiss k)

theorem moves_reject (size : Nat) : Moves offered t (t.reject size) :=
  moves_of_eq rfl rfl id

theorem moves_supersede (k : κ) : Moves offered t (t.supersede k) := by
  have hunqueue : Moves offered t (t.unqueue k).2 := t.moves_unqueue k
  have hdetach := hunqueue.trans (moves_detach _ k)
  unfold supersede
  dsimp only
  split
  · exact hdetach
  · exact hdetach.trans (moves_orphan _ _)

theorem keeps_accept (k : κ) (value : ValueId) (size : Nat) (observer : Option String) :
    Keeps offered t (t.accept k value size observer).2 :=
  ⟨.inl rfl, id⟩

theorem moves_settle (id : EntryId) : Moves offered t (t.settle id) := by
  unfold settle
  split
  · exact .refl t
  · rename_i e _
    split
    · exact moves_of_eq rfl rfl (·.enqueue id e)
    · exact .refl t

theorem moves_discardOne (id : EntryId) : Moves offered t (t.discardOne id) := by
  unfold discardOne
  split
  · exact .refl t
  · rename_i e _
    exact (t.moves_detach e.key).trans (moves_of_eq rfl rfl fun h => h)

theorem moves_discard (ids : List EntryId) : Moves offered t (t.discard ids) := by
  have hfold : ∀ (ids : List EntryId) (t : Transition κ),
      Moves offered t (ids.foldl discardOne t) := by
    intro ids
    induction ids with
    | nil => exact fun t => .refl t
    | cons id rest ih => exact fun t => (t.moves_discardOne id).trans (ih _)
  have hlog : ∀ m, Moves offered t (t.log m) := fun _ => moves_of_eq rfl rfl id
  unfold discard
  split
  · exact .refl t
  · exact (hlog _).trans (hfold ids _)

/-- Entries that the policy has given up are discarded. -/
theorem moves_yield (ids : List EntryId) {policy : Policy κ} (call : PolicyCall κ)
    (hshares : t.cache.policy.SharesFit → policy.SharesFit) :
    Moves offered t
      (((t.modify ({ · with policy := policy })).called call).discard ids) := by
  have hgiven : Moves offered t ((t.modify ({ · with policy := policy })).called call) :=
    moves_of_eq rfl rfl hshares
  exact hgiven.trans (moves_discard _ ids)

theorem moves_evict : Moves offered t t.evict :=
  t.moves_yield _ _ (·.evict _ _ _)

theorem moves_removeMatching (p : Predicate κ) : Moves offered t (t.removeMatching p).2.2 := by
  unfold removeMatching
  dsimp only
  rw [foldl_notify, foldl_orphan]
  refine ⟨⟨.inl rfl, (·.removeAll p [])⟩, ?_⟩
  show (t.cache.cached.eraseMany _).toList.Sublist _
  rw [SizedMap.toList_eraseMany]
  exact List.filter_sublist

end Transition

/-! ## Operations -/

namespace Cache

open Transition

/-- The limits that an operation may take over. -/
def offeredTo (op : Operation κ) : Option Limits :=
  op.surroundings?.map Surroundings.offered

/-- The operation takes in a new value. -/
def TakesIn (c : Cache κ) : Operation κ → Prop
  | .store s k value size observer => (c.store s k value size observer).1.isSome = true
  | _ => False

variable (c : Cache κ)

/-- An operation that takes no new value in caches nothing that was not cached before. -/
theorem moves_beforeEviction (op : Operation κ) (hop : ¬ c.TakesIn op) :
    Moves (offeredTo op) c.start (c.beforeEviction op) := by
  cases op with
  | store s k value size observer =>
    -- a value that is not taken in was turned down
    have hrejected : ¬ (c.start.reload s).cache.admits k size = true := by
      intro hadmits
      refine hop ?_
      unfold TakesIn store
      dsimp only
      rw [if_pos hadmits]
      rfl
    unfold beforeEviction
    dsimp only
    rw [if_neg hrejected]
    exact (c.start.moves_reload s).trans (moves_reject _ size)
  | get s k =>
    have hunqueue : Moves (some s.offered) c.start (c.start.unqueue k).2 := c.start.moves_unqueue k
    unfold beforeEviction
    dsimp only
    split
    · exact (hunqueue.trans (moves_hit _ _)).trans (moves_reload _ s)
    · exact (hunqueue.trans (moves_miss _ k)).trans (moves_reload _ s)
  | probe k => exact moves_of_eq rfl rfl (·.probe _ k)
  | reuse k =>
    have hunqueue : Moves none c.start (c.start.unqueue k).2 := c.start.moves_unqueue k
    show Moves none c.start (c.reuse k).2
    unfold reuse
    dsimp only
    split
    · exact hunqueue
    · exact (hunqueue.trans (moves_detach _ k)).trans (moves_orphan _ _)
  | removeAll s p => exact (c.start.moves_removeMatching p).trans (moves_reload _ s)
  | clear s => exact (c.start.moves_removeMatching .always).trans (moves_reload _ s)
  | trim s pressure ratio =>
    have hlog : Moves (some s.offered) c.start
        (c.start.log (.trimming pressure ratio (c.trimTarget ratio))) := moves_of_eq rfl rfl id
    exact (hlog.trans (moves_yield _ _ _ (·.trim _ _))).trans (moves_reload _ s)
  | release s id =>
    have hdropped : Moves (some s.offered) c.start (c.start.updateEntry id Entry.dropClient) :=
      moves_of_eq rfl rfl fun h => h
    exact (hdropped.trans (moves_settle _ id)).trans (moves_reload _ s)

theorem moves_apply (op : Operation κ) (hop : ¬ c.TakesIn op) :
    Moves (offeredTo op) c.start (c.apply op) := by
  have hbefore := c.moves_beforeEviction op hop
  rw [apply_eq]
  split
  · exact hbefore.trans (moves_evict _)
  · exact hbefore

/-- Every operation leaves the shares fit, and knows no limits but its own and those offered. -/
theorem keeps_beforeEviction (op : Operation κ) :
    Keeps (offeredTo op) c.start (c.beforeEviction op) := by
  by_cases hop : c.TakesIn op
  · cases op with
    | store s k value size observer =>
      have hmade := ((c.start.moves_reload s).trans (moves_supersede _ k)).toKeeps
      unfold beforeEviction
      dsimp only
      split
      · exact hmade.trans (keeps_accept _ k value size observer)
      · exact ((c.start.moves_reload s).trans (moves_reject _ size)).toKeeps
    | _ => exact nomatch hop
  · exact (c.moves_beforeEviction op hop).toKeeps

theorem keeps_apply (op : Operation κ) : Keeps (offeredTo op) c.start (c.apply op) := by
  have hbefore := c.keeps_beforeEviction op
  rw [apply_eq]
  split
  · exact hbefore.trans (moves_evict _).toKeeps
  · exact hbefore

/-- What is true of the limits in effect and of those offered is true of the limits in effect afterwards. -/
theorem limits_of_keeps {c : Cache κ} {op : Operation κ} {t : Transition κ} {P : Limits → Prop}
    (h : Keeps (offeredTo op) c.start t) (hlimits : P c.limits)
    (hoffered : ∀ w, op.surroundings? = some w → P w.offered) : P t.cache.limits := by
  rcases h.limits with hsame | hnew
  · rw [hsame]
    exact hlimits
  · obtain ⟨w, hw, heq⟩ := Option.map_eq_some_iff.1 hnew
    rw [← heq]
    exact hoffered w hw

end Cache

end RefCache
