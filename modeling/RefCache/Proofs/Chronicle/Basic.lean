import RefCache.Proofs.Ownership.Operations

/-!
# Chronicles

A chronicle is the list of all operations a cache has been asked for, each with the cache that was asked.
`c.Chronicle l c'` says that `c` has become `c'` by way of the operations in `l`, with nothing but rests
in between (`Cache.Rests`): a cache at rest forgets entries, or is emptied when nobody shares it any more.

Nothing is required of the operations, so a predicate may answer as it likes. `Asked.Ready` is what can be
relied on where predicates look at keys alone.

* `Chronicle.split`, `Chronicle.trans`: a chronicle falls into what was before an operation and what came
  after it
* `Throughout`: what holds all along, at the end, and wherever something was asked, before and after
-/

namespace RefCache

universe u

variable {κ : Type u} [Key κ]

namespace Cache

/-- What can become of a cache between operations: entries are lost to the table, and either what is
cached and what the policy holds stay as they were, or nothing of it is left. -/
structure Rests (c c' : Cache κ) : Prop where
  next_eq : c'.entries.next = c.entries.next
  kept : ∀ id e, c'.entries.get? id = some e → c.entries.get? id = some e
  limits_eq : c'.limits = c.limits
  contents : c'.cached = c.cached ∧ c'.policy = c.policy ∨
    c'.cached = .empty ∧ c'.policy = c.policy.emptied

end Cache

/-- An operation, and the cache that is asked for it. -/
structure Asked (κ : Type u) [Key κ] where
  cache : Cache κ
  op : Operation κ

namespace Asked

/-- The cache at the end of the operation. -/
def after (x : Asked κ) : Cache κ :=
  (x.cache.apply x.op).cache

/-- All is in order where the operation is asked for: entries are owned as they should be, predicates look
at keys alone, and an entry that is let go of has a client. -/
structure Ready (x : Asked κ) : Prop where
  owned : x.cache.Owned
  determined : x.op.KeyDetermined
  accepted : ∃ keepers, x.cache.KeepsOrphans keepers ∧ x.cache.Accepts keepers x.op

end Asked

/-- The cache `c` has become another one by way of the operations, which are listed in their order, each
with the cache that was asked. -/
inductive Cache.Chronicle (c : Cache κ) : List (Asked κ) → Cache κ → Prop where
  | start : Chronicle c [] c
  | rest {l : List (Asked κ)} {c' c'' : Cache κ} (before : Chronicle c l c') (rests : c'.Rests c'') :
      Chronicle c l c''
  | ask {l : List (Asked κ)} {c' : Cache κ} (before : Chronicle c l c') (op : Operation κ) :
      Chronicle c (l ++ [⟨c', op⟩]) (c'.apply op).cache

/-- `Q` holds of a chronicle and the cache at its end, and did so all the way: of what came before each
operation and the cache that was asked, and of what there was right after it. -/
structure Throughout (Q : List (Asked κ) → Cache κ → Prop) (l : List (Asked κ)) (c : Cache κ) :
    Prop where
  at_end : Q l c
  before_each : ∀ before x after, l = before ++ x :: after → Q before x.cache
  after_each : ∀ before x after, l = before ++ x :: after → Q (before ++ [x]) x.after

variable {c c' c'' : Cache κ} {l l' before after : List (Asked κ)} {x : Asked κ}
  {Q : List (Asked κ) → Cache κ → Prop}

/-! ## Where operations are asked for -/

/-- What an operation does until it evicts goes on in order. -/
theorem Asked.Ready.beforeEviction (h : x.Ready) :
    ∃ base, (x.cache.beforeEviction x.op).Orderly (x.cache.tableAfter x.op) base [] := by
  obtain ⟨keepers, hkept, haccepts⟩ := h.accepted
  exact ⟨keepers, Cache.beforeEviction_orderly h.owned hkept h.determined haccepts⟩

theorem Asked.Ready.orderly (h : x.Ready) :
    ∃ base, (x.cache.apply x.op).Orderly (x.cache.tableAfter x.op) base [] := by
  obtain ⟨keepers, hkept, haccepts⟩ := h.accepted
  exact ⟨keepers, Cache.apply_orderly h.owned hkept h.determined haccepts⟩

theorem Asked.Ready.owned_after (h : x.Ready) : x.after.Owned := by
  obtain ⟨_, horderly⟩ := h.orderly
  exact horderly.owned

theorem Asked.Ready.clients_after (h : x.Ready) (id : EntryId) :
    x.after.entries.clients id = (x.cache.tableAfter x.op).clients id := by
  obtain ⟨_, horderly⟩ := h.orderly
  exact horderly.marks.clients_eq id

theorem Asked.Ready.next_after (h : x.Ready) : x.after.entries.next = (x.cache.tableAfter x.op).next := by
  obtain ⟨_, horderly⟩ := h.orderly
  exact horderly.marks.next_eq

namespace Cache

/-! ## Rests -/

theorem Rests.refl (c : Cache κ) : c.Rests c where
  next_eq := rfl
  kept := fun _ _ he => he
  limits_eq := rfl
  contents := .inl ⟨rfl, rfl⟩

/-- To be emptied twice is to be emptied. -/
private theorem emptied_emptied (p : Policy κ) : p.emptied.emptied = p.emptied := by
  cases p <;> rfl

theorem Rests.trans (h : c.Rests c') (h' : c'.Rests c'') : c.Rests c'' where
  next_eq := h'.next_eq.trans h.next_eq
  kept := fun id e he => h.kept id e (h'.kept id e he)
  limits_eq := h'.limits_eq.trans h.limits_eq
  contents := by
    rcases h.contents with ⟨hcached, hpolicy⟩ | ⟨hcached, hpolicy⟩ <;>
      rcases h'.contents with ⟨hcached', hpolicy'⟩ | ⟨hcached', hpolicy'⟩
    · exact .inl ⟨hcached'.trans hcached, hpolicy'.trans hpolicy⟩
    · exact .inr ⟨hcached', hpolicy ▸ hpolicy'⟩
    · exact .inr ⟨hcached'.trans hcached, hpolicy'.trans hpolicy⟩
    · exact .inr ⟨hcached', by rw [hpolicy', hpolicy, emptied_emptied]⟩

/-- Forgetting an entry is a rest. -/
theorem rests_forget (c : Cache κ) (id : EntryId) :
    c.Rests { c with entries := c.entries.remove id } where
  next_eq := Register.next_remove c.entries id
  kept := by
    intro j e he
    change (c.entries.remove id).get? j = some e at he
    rw [Register.get?_remove] at he
    split at he
    · exact nomatch he
    · exact he
  limits_eq := rfl
  contents := .inl ⟨rfl, rfl⟩

/-! ## Chronicles -/

namespace Chronicle

theorem trans (h : c.Chronicle l c') (h' : c'.Chronicle l' c'') : c.Chronicle (l ++ l') c'' := by
  induction h' with
  | start => exact (List.append_nil l).symm ▸ h
  | rest _ rests ih => exact ih.rest rests
  | ask _ op ih =>
    rw [← List.append_assoc]
    exact ih.ask op

/-- A cache that was asked something is what has become of the first one, and goes on from there. -/
theorem split (h : c.Chronicle (before ++ x :: after) c') :
    c.Chronicle before x.cache ∧ x.after.Chronicle after c' := by
  generalize hl : before ++ x :: after = l at h
  -- the last operation is the one in question, or one after it
  induction h generalizing after with
  | start => simp at hl
  | rest _ rests ih => exact (ih hl).imp_right (·.rest rests)
  | ask hbefore op ih =>
    rcases List.eq_nil_or_concat after with rfl | ⟨rest, y, rfl⟩
    · obtain ⟨rfl, hx⟩ := List.append_inj' hl rfl
      obtain rfl := (List.cons.inj hx).1
      exact ⟨hbefore, .start⟩
    · rw [List.concat_eq_append, ← List.cons_append, ← List.append_assoc] at hl
      obtain ⟨hinit, hy⟩ := List.append_inj' hl rfl
      obtain rfl := (List.cons.inj hy).1
      rw [List.concat_eq_append]
      exact (ih hinit).imp_right (·.ask op)

/-- What holds at first, and is kept by rests and by operations that are in order, holds of every chronicle of
such operations. -/
@[elab_as_elim] theorem invariant {P : List (Asked κ) → Cache κ → Prop} (h : c.Chronicle l c')
    (hready : ∀ x ∈ l, x.Ready) (start : P [] c)
    (rest : ∀ l c' c'', c.Chronicle l c' → (∀ x ∈ l, x.Ready) → c'.Rests c'' → P l c' → P l c'')
    (ask : ∀ l x, c.Chronicle l x.cache → (∀ y ∈ l, y.Ready) → x.Ready → P l x.cache →
      P (l ++ [x]) x.after) : P l c' := by
  induction h with
  | start => exact start
  | rest before rests ih => exact rest _ _ _ before hready rests (ih hready)
  | @ask l c' before op ih =>
    rw [List.forall_mem_append, List.forall_mem_singleton] at hready
    exact ask l ⟨c', op⟩ before hready.1 hready.2 (ih hready.1)

/-- Where nothing was asked for, there was nothing but rests. -/
theorem rests_of_nil (h : c.Chronicle [] c') : c.Rests c' := by
  generalize hl : ([] : List (Asked κ)) = l at h
  induction h with
  | start => exact .refl c
  | rest _ rests ih => exact (ih hl).trans rests
  | ask => simp at hl

/-- Since the latest operation there were nothing but rests. -/
theorem rests_of_last (h : c.Chronicle (before ++ [x]) c') : x.after.Rests c' :=
  h.split.2.rests_of_nil

/-- What holds of every chronicle has held all along. -/
theorem throughout (h : c.Chronicle l c') (hQ : ∀ l c', c.Chronicle l c' → Q l c') :
    Throughout Q l c' where
  at_end := hQ l c' h
  before_each := by
    rintro before x after rfl
    exact hQ before x.cache h.split.1
  after_each := by
    rintro before x after rfl
    exact hQ _ x.after (h.split.1.ask x.op)

/-- And so has what holds as long as all is in order. -/
theorem throughout_of_ready (h : c.Chronicle l c') (hready : ∀ x ∈ l, x.Ready) (howned : c'.Owned)
    (hQ : ∀ l c', c.Chronicle l c' → (∀ x ∈ l, x.Ready) → c'.Owned → Q l c') : Throughout Q l c' where
  at_end := hQ l c' h hready howned
  before_each := by
    rintro before x after rfl
    rw [List.forall_mem_append, List.forall_mem_cons] at hready
    exact hQ before x.cache h.split.1 hready.1 hready.2.1.owned
  after_each := by
    rintro before x after rfl
    rw [List.forall_mem_append, List.forall_mem_cons] at hready
    exact hQ _ x.after (h.split.1.ask x.op)
      (List.forall_mem_append.2 ⟨hready.1, List.forall_mem_singleton.2 hready.2.1⟩) hready.2.1.owned_after

end Chronicle

end Cache

end RefCache
