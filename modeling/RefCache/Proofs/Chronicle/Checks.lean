import Mathlib.Data.List.Induction
import RefCache.Proofs.Chronicle.Basic
import RefCache.Proofs.Ownership.Discard

/-!
# When new limits are asked for

Whatever else an operation does, it looks once whether new limits are due, or not at all (`Cache.terms_apply`).
What decides is the latest poll before it, that is its time and the limits that it brought (`lastPoll`), and the
reading of the clock that the operation takes. Nothing is required of the clock, nor of the limits offered.

`Asked.ChecksInTime` says what this means for one operation, and `ChecksInTime.along` for a whole chronicle between
whose operations the time of the last check stays as it is (`Cache.KeepsCheck`).
-/

namespace RefCache

universe u

variable {κ : Type u} [Key κ]

/-- The limits in effect and since when, and how often new ones were asked for. -/
structure Terms where
  limits : Limits
  since : Duration
  polls : Nat

namespace Terms

/-- New limits are due. -/
def due (m : Terms) (now : Duration) : Bool :=
  match m.since.add? m.limits.checkInterval with
  | none => false
  | some due => due ≤ now

/-- After a look at the clock. -/
def check (m : Terms) (w : Surroundings) : Terms :=
  if m.due w.now then ⟨w.offered, w.now, m.polls + 1⟩ else m

theorem due_iff {m : Terms} {now : Duration} :
    m.due now = true ↔ ∃ due, m.since.add? m.limits.checkInterval = some due ∧ due ≤ now := by
  unfold due
  cases m.since.add? m.limits.checkInterval with
  | none => simp
  | some due => simp

end Terms

/-! ## The steps of an operation -/

namespace Transition

variable (t : Transition κ)

def terms : Terms := ⟨t.cache.limits, t.cache.lastCheck, t.polls⟩

theorem terms_reload (w : Surroundings) : (t.reload w).terms = t.terms.check w := by
  unfold reload Terms.check
  have hdue : t.cache.reloadDue w.now = t.terms.due w.now := rfl
  rw [hdue]
  split <;> rfl

@[simp] theorem terms_unqueue (k : κ) : (t.unqueue k).2.terms = t.terms := by
  unfold unqueue
  dsimp only
  split <;> rfl

@[simp] theorem terms_detach (k : κ) : (t.detach k).2.terms = t.terms := by
  unfold detach
  split <;> rfl

@[simp] theorem terms_orphan (id : EntryId) : (t.orphan id).terms = t.terms := rfl

@[simp] theorem terms_hit (id : EntryId) : (t.hit id).terms = t.terms := rfl

@[simp] theorem terms_miss (k : κ) : (t.miss k).terms = t.terms := rfl

@[simp] theorem terms_reject (size : Nat) : (t.reject size).terms = t.terms := rfl

@[simp] theorem terms_accept (k : κ) (value : ValueId) (size : Nat) (observer : Option String) :
    (t.accept k value size observer).2.terms = t.terms := rfl

@[simp] theorem terms_supersede (k : κ) : (t.supersede k).terms = t.terms := by
  unfold supersede
  dsimp only
  split <;> simp

@[simp] theorem terms_settle (id : EntryId) : (t.settle id).terms = t.terms := by
  unfold settle
  split
  · rfl
  · split <;> rfl

@[simp] theorem terms_discard (ids : List EntryId) : (t.discard ids).terms = t.terms := by
  refine view_discard terms (fun _ _ => rfl) (fun t id => ?_) t ids
  unfold discardOne
  split
  · rfl
  · exact terms_detach t _

@[simp] theorem terms_evict : t.evict.terms = t.terms :=
  terms_discard _ _

@[simp] theorem terms_removeMatching (p : Predicate κ) : (t.removeMatching p).2.2.terms = t.terms := by
  unfold removeMatching
  dsimp only
  rw [foldl_notify, foldl_orphan]
  rfl

/-- To discard entries is no call of the policy. -/
theorem calls_discard (ids : List EntryId) : (t.discard ids).calls = t.calls := by
  refine view_discard calls (fun _ _ => rfl) (fun t id => ?_) t ids
  unfold discardOne detach
  split
  · rfl
  · split <;> rfl

end Transition

/-! ## One operation -/

namespace Cache

variable (c : Cache κ)

/-- What an operation does until it evicts: it looks at the clock once, if it looks at its surroundings at all. -/
theorem terms_beforeEviction (op : Operation κ) : (c.beforeEviction op).terms =
    match op.surroundings? with
    | none => c.start.terms
    | some w => c.start.terms.check w := by
  cases op with
  | store w k value size observer =>
    -- both outcomes of a store come after its one reload
    unfold beforeEviction
    dsimp only
    split <;> simp [Transition.terms_reload, Operation.surroundings?]
  | get w k =>
    unfold beforeEviction
    dsimp only
    split <;> simp [Transition.terms_reload, Operation.surroundings?]
  | probe k => rfl
  | reuse k =>
    -- like a probe, it has no surroundings to look at
    show (c.reuse k).2.terms = c.start.terms
    unfold reuse
    dsimp only
    split <;> simp
  | removeAll w p =>
    show ((c.start.removeMatching p).2.2.reload w).terms = c.start.terms.check w
    rw [Transition.terms_reload, Transition.terms_removeMatching]
  | clear w =>
    show ((c.start.removeMatching .always).2.2.reload w).terms = c.start.terms.check w
    rw [Transition.terms_reload, Transition.terms_removeMatching]
  | trim w pressure ratio =>
    unfold beforeEviction
    dsimp only
    rw [Transition.terms_reload, Transition.terms_discard]
    rfl
  | release w id =>
    show (((c.start.updateEntry id Entry.dropClient).settle id).reload w).terms = c.start.terms.check w
    rw [Transition.terms_reload, Transition.terms_settle]
    rfl

theorem terms_apply (op : Operation κ) : (c.apply op).terms =
    match op.surroundings? with
    | none => c.start.terms
    | some w => c.start.terms.check w := by
  rw [← terms_beforeEviction, apply_eq]
  split
  · exact Transition.terms_evict _
  · rfl

end Cache

/-- Limits that were polled in these surroundings have been in effect for their interval. An end of the interval
that cannot be represented never comes. -/
def Surroundings.Expired (p : Surroundings) (now : Duration) : Prop :=
  ∃ due, p.now.add? p.offered.checkInterval = some due ∧ due ≤ now

/-- No interval is shorter than nothing. -/
theorem Surroundings.Expired.trans {p q : Surroundings} {now : Duration} (h : p.Expired q.now)
    (h' : q.Expired now) : p.Expired now := by
  obtain ⟨due, hdue, hle⟩ := h
  obtain ⟨due', hdue', hle'⟩ := h'
  have hlater : q.now ≤ due' := by
    unfold Duration.add? at hdue'
    dsimp only at hdue'
    split at hdue'
    · exact Option.some.inj hdue' ▸ Nat.le_add_right _ _
    · exact nomatch hdue'
  exact ⟨due, hdue, Nat.le_trans hle (Nat.le_trans hlater hle')⟩

/-- The limits of the cache were polled in these surroundings. -/
structure Cache.DatesFrom (c : Cache κ) (p : Surroundings) : Prop where
  limits_eq : c.limits = p.offered
  lastCheck_eq : c.lastCheck = p.now

namespace Asked

/-- How often the operation asks for new limits. -/
def polls (x : Asked κ) : Nat :=
  (x.cache.apply x.op).polls

/-- The surroundings in which the operation asks for new limits, if it does. -/
def poll? (x : Asked κ) : Option Surroundings :=
  if x.polls = 0 then none else x.op.surroundings?

/-- Where the latest poll was `p`, the operation asks for new limits if those have expired, and works with the
limits that are in effect then. -/
structure ChecksInTime (p : Surroundings) (x : Asked κ) : Prop where
  polls_le : x.polls ≤ 1
  polls_iff : x.polls = 1 ↔ ∃ w, x.op.surroundings? = some w ∧ p.Expired w.now
  before : x.cache.DatesFrom p
  after : x.after.DatesFrom (x.poll?.getD p)
  /-- A value is admitted, or turned down, by the limits after the check. -/
  admission : ∀ w k value size observer, x.op = .store w k value size observer →
    (x.cache.store w k value size observer).1.isSome
      = ({ x.cache with limits := x.after.limits } : Cache κ).admits k size
  /-- What ends by an eviction evicts what exceeds the budget by the limits after the check. -/
  eviction : x.op.evicts = true → x.cache.apply x.op = (x.cache.beforeEviction x.op).evict ∧
    ∃ keys, (x.cache.apply x.op).calls = (x.cache.beforeEviction x.op).calls ++ [.evict
      (min x.after.limits.maxQueueEntries
        (x.after.limits.maxEntries - (x.cache.beforeEviction x.op).cache.inUseCount))
      (min x.after.limits.maxQueueSize
        (x.after.limits.maxSize - (x.cache.beforeEviction x.op).cache.inUseSize)) keys]

variable {x : Asked κ} {p : Surroundings}

/-- An operation asks for new limits once if those in effect have expired, and else not at all. -/
theorem poll_cases (h : x.cache.DatesFrom p) :
    (x.polls = 0 ∧ x.poll? = none ∧ x.after.DatesFrom p ∧
      ∀ w, x.op.surroundings? = some w → ¬ p.Expired w.now) ∨
    ∃ w, x.polls = 1 ∧ x.poll? = some w ∧ x.op.surroundings? = some w ∧ x.after.DatesFrom w ∧
      p.Expired w.now := by
  -- the operation checks the terms that it starts with, those of the latest poll, or leaves them
  have hterms := x.cache.terms_apply x.op
  have hstart : x.cache.start.terms = ⟨p.offered, p.now, 0⟩ := by
    rw [← h.limits_eq, ← h.lastCheck_eq]
    rfl
  have hnone : (x.cache.apply x.op).terms = ⟨p.offered, p.now, 0⟩ →
      x.polls = 0 ∧ x.poll? = none ∧ x.after.DatesFrom p := fun heq =>
    have hpolls : x.polls = 0 := congrArg Terms.polls heq
    ⟨hpolls, if_pos hpolls, congrArg Terms.limits heq, congrArg Terms.since heq⟩
  rw [hstart] at hterms
  cases hw : x.op.surroundings? with
  | none =>
    rw [hw] at hterms
    obtain ⟨hpolls, hpoll, hafter⟩ := hnone hterms
    exact .inl ⟨hpolls, hpoll, hafter, nofun⟩
  | some w =>
    rw [hw] at hterms
    dsimp only at hterms
    -- whether a poll is due is read off the terms alone
    by_cases hdue : (⟨p.offered, p.now, 0⟩ : Terms).due w.now = true
    · rw [Terms.check, if_pos hdue] at hterms
      have hpolls : x.polls = 1 := congrArg Terms.polls hterms
      refine .inr ⟨w, hpolls, ?_, rfl, ⟨congrArg Terms.limits hterms, congrArg Terms.since hterms⟩,
        Terms.due_iff.1 hdue⟩
      rw [poll?, if_neg (by omega), hw]
    · rw [Terms.check, if_neg hdue] at hterms
      obtain ⟨hpolls, hpoll, hafter⟩ := hnone hterms
      refine .inl ⟨hpolls, hpoll, hafter, fun w' hw' hexpired => hdue (Terms.due_iff.2 ?_)⟩
      cases hw'
      exact hexpired

theorem limits_beforeEviction (x : Asked κ) : (x.cache.beforeEviction x.op).cache.limits = x.after.limits :=
  congrArg Terms.limits ((x.cache.terms_beforeEviction x.op).trans (x.cache.terms_apply x.op).symm)

theorem checksInTime (h : x.cache.DatesFrom p) : x.ChecksInTime p where
  polls_le := by
    rcases poll_cases h with ⟨hpolls, _⟩ | ⟨_, hpolls, _⟩ <;> omega
  polls_iff := by
    rcases poll_cases h with ⟨hpolls, _, _, hnever⟩ | ⟨w, hpolls, _, hw, _, hexpired⟩
    · exact ⟨fun hone => by omega, fun ⟨w, hw, hexpired⟩ => absurd hexpired (hnever w hw)⟩
    · exact ⟨fun _ => ⟨w, hw, hexpired⟩, fun _ => hpolls⟩
  before := h
  after := by
    rcases poll_cases h with ⟨_, hpoll, hafter, _⟩ | ⟨w, _, hpoll, _, hafter, _⟩
    · rwa [hpoll]
    · rwa [hpoll]
  admission w k value size observer hop := by
    -- the limits of the store are those of the reload it begins with
    have hlimits : x.after.limits = (x.cache.start.reload w).cache.limits := by
      have happly := x.cache.terms_apply x.op
      rw [hop] at happly
      have hreload := x.cache.start.terms_reload w
      rw [after, hop]
      exact congrArg Terms.limits (happly.trans hreload.symm)
    have hreload : (x.cache.start.reload w).cache
        = { x.cache with limits := x.after.limits, lastCheck := (x.cache.start.reload w).cache.lastCheck } := by
      rw [hlimits]
      unfold Transition.reload
      split <;> rfl
    rw [Cache.isSome_store, hreload]
    rfl
  eviction hevicts := by
    have happly : x.cache.apply x.op = (x.cache.beforeEviction x.op).evict := by
      rw [Cache.apply_eq, if_pos hevicts]
    -- the policy is called once more, by the eviction, and the limits have been checked by then
    let before := x.cache.beforeEviction x.op
    refine ⟨happly, before.cache.entries.keys before.evicted.1, ?_⟩
    rw [happly, ← limits_beforeEviction, Transition.evict_eq, Transition.calls_discard]
    rfl

end Asked

/-! ## A whole chronicle -/

/-- The surroundings in which new limits were asked for. -/
def pollsOf (l : List (Asked κ)) : List Surroundings :=
  l.filterMap Asked.poll?

/-- The surroundings of the latest poll, `w₀` being those in which the cache was made. -/
def lastPoll (w₀ : Surroundings) (l : List (Asked κ)) : Surroundings :=
  (pollsOf l).getLast?.getD w₀

theorem pollsOf_concat (l : List (Asked κ)) (x : Asked κ) :
    pollsOf (l ++ [x]) = pollsOf l ++ x.poll?.toList := by
  unfold pollsOf
  cases hx : x.poll? <;> simp [hx]

theorem Asked.polls_eq_length (x : Asked κ) : x.polls = x.poll?.toList.length := by
  have hself : x.cache.DatesFrom ⟨x.cache.lastCheck, x.cache.limits⟩ := ⟨rfl, rfl⟩
  rcases Asked.poll_cases hself with ⟨hpolls, hpoll, _⟩ | ⟨_, hpolls, hpoll, _⟩ <;> simp [hpolls, hpoll]

theorem lastPoll_concat (w₀ : Surroundings) (l : List (Asked κ)) (x : Asked κ) :
    lastPoll w₀ (l ++ [x]) = x.poll?.getD (lastPoll w₀ l) := by
  unfold lastPoll
  rw [pollsOf_concat]
  cases x.poll? <;> simp

theorem cons_pollsOf (w₀ : Surroundings) (l : List (Asked κ)) :
    ∃ earlier, w₀ :: pollsOf l = earlier ++ [lastPoll w₀ l] := by
  unfold lastPoll
  rcases List.eq_nil_or_concat (pollsOf l) with h | ⟨init, w, h⟩
  · exact ⟨[], by simp [h]⟩
  · exact ⟨w₀ :: init, by simp [h]⟩

namespace Cache

/-- Between the operations the time of the last check stays as it is. -/
def KeepsCheck : Cache κ → List (Asked κ) → Cache κ → Prop
  | c, [], c' => c'.lastCheck = c.lastCheck
  | c, x :: rest, c' => x.cache.lastCheck = c.lastCheck ∧ KeepsCheck x.after rest c'

/-- A chronicle in which new limits are asked for by the operations alone. -/
structure TimedChronicle (c : Cache κ) (l : List (Asked κ)) (c' : Cache κ) : Prop where
  chronicle : c.Chronicle l c'
  keepsCheck : c.KeepsCheck l c'

variable {c c' c'' : Cache κ} {l l' before after : List (Asked κ)} {x : Asked κ} {w₀ : Surroundings}

theorem KeepsCheck.trans (h : c.KeepsCheck l c') (h' : c'.KeepsCheck l' c'') : c.KeepsCheck (l ++ l') c'' := by
  induction l generalizing c with
  | nil =>
    cases l' with
    | nil => exact Eq.trans h' h
    | cons x rest => exact ⟨h'.1.trans h, h'.2⟩
  | cons x rest ih => exact ⟨h.1, ih h.2⟩

theorem KeepsCheck.split (h : c.KeepsCheck (before ++ x :: after) c') :
    c.KeepsCheck before x.cache ∧ x.after.KeepsCheck after c' := by
  induction before generalizing c with
  | nil => exact h
  | cons y rest ih => exact (ih h.2).imp_left fun hrest => ⟨h.1, hrest⟩

theorem TimedChronicle.split (h : c.TimedChronicle (before ++ x :: after) c') :
    c.TimedChronicle before x.cache ∧ x.after.TimedChronicle after c' :=
  ⟨⟨h.chronicle.split.1, h.keepsCheck.split.1⟩, ⟨h.chronicle.split.2, h.keepsCheck.split.2⟩⟩

/-- The limits in effect are always those that were polled last. -/
theorem TimedChronicle.datesFrom (h : c.TimedChronicle l c') (hc : c.DatesFrom w₀) :
    c'.DatesFrom (lastPoll w₀ l) := by
  induction l using List.reverseRecOn generalizing c' with
  | nil =>
    exact ⟨h.chronicle.rests_of_nil.limits_eq.trans hc.limits_eq, Eq.trans h.keepsCheck hc.lastCheck_eq⟩
  | append_singleton before x ih =>
    obtain ⟨hbefore, hafter⟩ := h.split
    have hx := (Asked.checksInTime (ih hbefore)).after
    rw [← lastPoll_concat] at hx
    exact ⟨hafter.chronicle.rests_of_nil.limits_eq.trans hx.limits_eq,
      Eq.trans hafter.keepsCheck hx.lastCheck_eq⟩

/-- Of two polls, the limits of the earlier one have expired when the later one comes. -/
theorem TimedChronicle.expired (h : c.TimedChronicle l c') (hc : c.DatesFrom w₀) :
    (w₀ :: pollsOf l).Pairwise fun p q => p.Expired q.now := by
  -- along the run, each new poll coming last
  induction l using List.reverseRecOn generalizing c' with
  | nil => exact List.pairwise_singleton _ _
  | append_singleton before x ih =>
    have hbefore := h.split.1
    have hpairs := ih hbefore
    rcases Asked.poll_cases (hbefore.datesFrom hc) with ⟨_, hpoll, _⟩ | ⟨w, _, hpoll, _, _, hexpired⟩
    · rwa [pollsOf_concat, hpoll, Option.toList_none, List.append_nil]
    · obtain ⟨earlier, hearlier⟩ := cons_pollsOf w₀ before
      rw [pollsOf_concat, hpoll, Option.toList_some, ← List.cons_append, List.pairwise_append]
      refine ⟨hpairs, List.pairwise_singleton _ _, fun p hp q hq => ?_⟩
      obtain rfl := List.mem_singleton.1 hq
      -- what is not the latest poll had expired when that came
      rw [hearlier] at hp hpairs
      rcases List.mem_append.1 hp with hp | hp
      · exact ((List.pairwise_append.1 hpairs).2.2 p hp _ (List.mem_singleton_self _)).trans hexpired
      · exact List.mem_singleton.1 hp ▸ hexpired

/-- From the time `w₀` on, in a chronicle that led to this cache, new limits were asked for when those in effect had
expired, and then only. -/
structure ReloadsInTime (w₀ : Surroundings) (l : List (Asked κ)) (c : Cache κ) : Prop where
  each : ∀ before x after, l = before ++ x :: after → x.ChecksInTime (lastPoll w₀ before)
  /-- Two polls are as far apart as the interval says that the first of them brought, or farther. -/
  apart : (w₀ :: pollsOf l).Pairwise fun p q => p.Expired q.now
  at_end : c.DatesFrom (lastPoll w₀ l)

theorem TimedChronicle.reloadsInTime (h : c.TimedChronicle l c') (hc : c.DatesFrom w₀) :
    ReloadsInTime w₀ l c' where
  each := by
    rintro before x after rfl
    exact Asked.checksInTime (h.split.1.datesFrom hc)
  apart := h.expired hc
  at_end := h.datesFrom hc

theorem datesFrom_create (policy : Policy κ) (w₀ : Surroundings) : (create policy w₀).cache.DatesFrom w₀ :=
  ⟨rfl, rfl⟩

end Cache

end RefCache
