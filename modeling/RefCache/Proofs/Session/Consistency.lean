import RefCache.Proofs.Ownership.Trace
import RefCache.Proofs.Session.Balance

/-!
# Consistent sessions

A session is consistent when its cache owns its entries as it should, every orphan without clients is
kept by an operation under way, and the books are right. `s.Settles s' base held grip` says that the
session `s` has come to the consistent session `s'` in which operations under way keep the entries
`base` and hold the copies `held` and the handles `grip`, and that on the way the cache has gone
through operations and nothing else (`Session.Leads`).

* `letGoAll`: the entries that an operation kept are let go, one by one
* `tearDown`: a cache without owner and clients leaves no entry behind
-/

namespace RefCache

universe u

variable {κ : Type u}

/-- The predicate of the request, if it has one, looks at the key alone. -/
def Request.KeyDetermined : Request κ → Prop
  | .removeAll p => p.KeyDetermined
  | _ => True

/-- All requests of the reaction are about keys alone. -/
def Reaction.KeyDetermined (r : Reaction κ) : Prop :=
  ∀ q ∈ r.requests, q.KeyDetermined

namespace Session

variable [Key κ]

/-- Everything but the handles to values is right, and they are right too. -/
structure Consistent (s : Session κ) (keepers : List EntryId) (held : List ClientId)
    (grip : List ValueId) : Prop where
  owned : s.cache.Owned
  kept : s.cache.KeepsOrphans keepers
  balanced : s.Balanced s.cache.entries held grip
  reactions : ∀ r ∈ s.reactions, r.KeyDetermined

/-- The cache of the later session is what became of that of the earlier one. -/
structure Leads (s s' : Session κ) : Prop where
  present_eq : s'.present = s.present
  offered_eq : s'.offered = s.offered
  trace : ∃ ops, s'.operations = ops.reverse ++ s.operations ∧ s.cache.Trace ops s'.cache ∧
    ∀ op ∈ ops, ∀ w, op.surroundings? = some w → w.offered = s.offered

/-- The session has come to a consistent one. -/
structure Settles (s s' : Session κ) (base : List EntryId) (held : List ClientId)
    (grip : List ValueId) : Prop where
  consistent : s'.Consistent base held grip
  inFlight_eq : s'.inFlight = base
  leads : s.Leads s'

/-- Two sessions that differ at most in the cache, in the books, in the clock and in what was seen. -/
structure Frame (s s' : Session κ) : Prop where
  present_eq : s'.present = s.present
  offered_eq : s'.offered = s.offered
  inFlight_eq : s'.inFlight = s.inFlight
  operations_eq : s'.operations = s.operations
  reactions_eq : s'.reactions = s.reactions

/-- Two sessions that differ at most in values, in names, in the clock and in what was seen. -/
structure SameHolders (s s' : Session κ) : Prop extends Frame s s' where
  cache_eq : s'.cache = s.cache
  clients_eq : s'.clients = s.clients

variable {s s' s'' : Session κ} {base base' keepers : List EntryId} {held held' : List ClientId}
  {grip grip' : List ValueId}

theorem Leads.refl (s : Session κ) : s.Leads s :=
  ⟨rfl, rfl, [], rfl, .start, fun _ h => nomatch h⟩

theorem Leads.trans (h : s.Leads s') (h' : s'.Leads s'') : s.Leads s'' where
  present_eq := h'.present_eq.trans h.present_eq
  offered_eq := h'.offered_eq.trans h.offered_eq
  trace := by
    obtain ⟨ops, hops, htrace, hsame⟩ := h.trace
    obtain ⟨ops', hops', htrace', hsame'⟩ := h'.trace
    refine ⟨ops ++ ops', ?_, htrace.trans htrace', ?_⟩
    · rw [hops', hops, List.reverse_append, List.append_assoc]
    · intro op hop w hw
      rcases List.mem_append.1 hop with hop | hop
      · exact hsame op hop w hw
      · exact (hsame' op hop w hw).trans h.offered_eq

theorem Settles.trans (h : s.Settles s' base held grip) (h' : s'.Settles s'' base' held' grip') :
    s.Settles s'' base' held' grip' :=
  ⟨h'.consistent, h'.inFlight_eq, h.leads.trans h'.leads⟩

/-- A settled session is consistent with what it keeps itself. -/
theorem Settles.own (h : s.Settles s' base held grip) : s'.Consistent s'.inFlight held grip :=
  h.inFlight_eq ▸ h.consistent

/-- What keeps to the entries kept before goes on from there. -/
theorem Settles.andThen (h : s.Settles s' base held grip)
    (h' : s'.Settles s'' s'.inFlight held' grip') : s.Settles s'' base held' grip' := by
  rw [h.inFlight_eq] at h'
  exact h.trans h'

theorem Frame.refl (s : Session κ) : s.Frame s :=
  ⟨rfl, rfl, rfl, rfl, rfl⟩

theorem Frame.trans (h : s.Frame s') (h' : s'.Frame s'') : s.Frame s'' :=
  ⟨h'.present_eq.trans h.present_eq, h'.offered_eq.trans h.offered_eq,
    h'.inFlight_eq.trans h.inFlight_eq, h'.operations_eq.trans h.operations_eq,
    h'.reactions_eq.trans h.reactions_eq⟩

/-- A frame around a cache that has forgotten entries at most. -/
theorem Frame.leads (h : s.Frame s') (htrace : s.cache.Trace [] s'.cache) : s.Leads s' :=
  ⟨h.present_eq, h.offered_eq, [], h.operations_eq, htrace, fun _ h => nomatch h⟩

/-! ## Changes of the books alone -/

theorem Consistent.settles (h : s.Consistent s.inFlight held grip) :
    s.Settles s s.inFlight held grip :=
  ⟨h, rfl, .refl s⟩

/-- The cache stays as it is while the books change. -/
theorem Consistent.withBooks (h : s.Consistent s.inFlight held grip) (hframe : s.Frame s')
    (hcache : s'.cache = s.cache) (hbalanced : s'.Balanced s.cache.entries held' grip') :
    s.Settles s' s.inFlight held' grip' where
  consistent :=
    { owned := hcache ▸ h.owned
      kept := hcache ▸ h.kept
      balanced := hcache ▸ hbalanced
      reactions := hframe.reactions_eq ▸ h.reactions }
  inFlight_eq := hframe.inFlight_eq
  leads := hframe.leads (hcache ▸ .start)

theorem SameHolders.refl (s : Session κ) : s.SameHolders s :=
  ⟨.refl s, rfl, rfl⟩

theorem SameHolders.trans (h : s.SameHolders s') (h' : s'.SameHolders s'') : s.SameHolders s'' :=
  ⟨h.toFrame.trans h'.toFrame, h'.cache_eq.trans h.cache_eq, h'.clients_eq.trans h.clients_eq⟩

/-- Dropping a handle changes values and what was seen. -/
theorem sameHolders_dropHandle (s : Session κ) (v : ValueId) : s.SameHolders (s.dropHandle v) := by
  unfold dropHandle
  split
  · exact .refl s
  · split
    · dsimp only
      split
      · exact ⟨⟨rfl, rfl, rfl, rfl, rfl⟩, rfl, rfl⟩
      · exact ⟨⟨rfl, rfl, rfl, rfl, rfl⟩, rfl, rfl⟩
    · exact ⟨⟨rfl, rfl, rfl, rfl, rfl⟩, rfl, rfl⟩

theorem sameHolders_placeHandle (s : Session κ) (v : ValueId) (into : Option String) :
    s.SameHolders (s.placeHandle v into) := by
  cases into with
  | none => exact s.sameHolders_dropHandle v
  | some name =>
    let s₁ : Session κ := { s with handles := s.handles.insert name v }
    have hnamed : s.SameHolders s₁ := ⟨⟨rfl, rfl, rfl, rfl, rfl⟩, rfl, rfl⟩
    unfold placeHandle
    dsimp only
    split
    · exact hnamed
    · rename_i w _
      exact hnamed.trans (s₁.sameHolders_dropHandle w)

theorem Consistent.dropHandle {v : ValueId} (h : s.Consistent s.inFlight held (v :: grip)) :
    s.Settles (s.dropHandle v) s.inFlight held grip :=
  have hsame := s.sameHolders_dropHandle v
  h.withBooks hsame.toFrame hsame.cache_eq h.balanced.dropHandle

theorem Consistent.placeHandle {v : ValueId} (h : s.Consistent s.inFlight held (v :: grip))
    (into : Option String) : s.Settles (s.placeHandle v into) s.inFlight held grip :=
  have hsame := s.sameHolders_placeHandle v into
  h.withBooks hsame.toFrame hsame.cache_eq (h.balanced.placeHandle into)

/-- What an onlooker sees, releases apart, is of no consequence. -/
theorem Consistent.record (h : s.Consistent s.inFlight held grip) {e : Event κ}
    (he : ∀ v, e.Releases v = false) : s.Settles (s.record e) s.inFlight held grip :=
  h.withBooks ⟨rfl, rfl, rfl, rfl, rfl⟩ rfl (h.balanced.record he)

/-! ## Letting entries go -/

/-- An entry is dropped unless somebody refers to it. -/
theorem dropUnlessHeld_cases (s : Session κ) (id : EntryId) :
    (s.dropUnlessHeld id = s ∧
      (id ∈ s.inFlight ∨ s.cache.refersTo id = true ∨ s.cache.entries.get? id = none)) ∨
    ∃ e, s.cache.refersTo id = false ∧ s.cache.entries.get? id = some e ∧
      s.dropUnlessHeld id = { s with cache := s.cache.forget id }.dropHandle e.value := by
  unfold dropUnlessHeld
  split
  · -- somebody keeps it or refers to it
    rename_i hheld
    rw [Bool.or_eq_true, List.contains_iff_mem] at hheld
    exact .inl ⟨rfl, hheld.imp_right .inl⟩
  · -- nobody does, but it may be gone already
    rename_i hheld
    rw [Bool.or_eq_true, not_or, Bool.not_eq_true, Bool.not_eq_true] at hheld
    split
    · rename_i hnone
      exact .inl ⟨rfl, .inr (.inr hnone)⟩
    · rename_i e he
      exact .inr ⟨e, hheld.2, he, rfl⟩

/-- An orphan without clients is nothing that the cache refers to. -/
theorem refersTo_of_orphan {c : Cache κ} (h : c.Owned) {id : EntryId} {e : Entry κ}
    (he : c.entries.get? id = some e) (horphan : e.orphan = true) (hclients : e.clients = 0) :
    c.refersTo id = false := by
  -- neither the map nor the policy knows an orphan
  have hnotcached : ∀ size, (e.key, ⟨id, size⟩) ∉ c.cached.toList := by
    intro size hmem
    obtain ⟨e', he', _, _, horphan'⟩ := h.entry_of_cached _ hmem
    rw [he, Option.some.injEq] at he'
    rw [← he', horphan] at horphan'
    exact nomatch horphan'
  have hget : c.cached.get? e.key ≠ some id := by
    intro hget
    obtain ⟨size, hmem⟩ := (c.cached.get?_eq_some_iff _ _).1 hget
    exact hnotcached size hmem
  -- what the policy holds is cached as well
  have hholds : c.policy.holds e.key id = false := by
    rw [Bool.eq_false_iff]
    intro hholds
    obtain ⟨size, hmem⟩ := (c.policy.holds_iff_mem_items _ _).1 hholds
    exact hnotcached size (h.cached_of_item hmem)
  -- clients, map and policy are all who could refer to the entry
  rw [Cache.refersTo, he]
  simp only [hclients, hget, hholds, Nat.lt_irrefl, decide_false, Bool.or_false]

/-- Dropping an entry changes nothing of the cache but its table. -/
theorem dropUnlessHeld_frame (s : Session κ) (id : EntryId) :
    s.Frame (s.dropUnlessHeld id) ∧ s.cache.Trace [] (s.dropUnlessHeld id).cache := by
  rcases s.dropUnlessHeld_cases id with ⟨heq, _⟩ | ⟨e, hrefers, _, heq⟩
  · rw [heq]
    exact ⟨.refl s, .start⟩
  · let s₁ : Session κ := { s with cache := s.cache.forget id }
    have hframe : s.Frame s₁ := ⟨rfl, rfl, rfl, rfl, rfl⟩
    have hdrop := s₁.sameHolders_dropHandle e.value
    rw [heq]
    exact ⟨hframe.trans hdrop.toFrame, hdrop.cache_eq ▸ .forget .start hrefers⟩

/-- What is dropped leaves the books right. -/
theorem Balanced.dropUnlessHeld (h : s.Balanced s.cache.entries held grip) (id : EntryId) :
    (s.dropUnlessHeld id).Balanced (s.dropUnlessHeld id).cache.entries held grip := by
  rcases s.dropUnlessHeld_cases id with ⟨heq, _⟩ | ⟨e, hrefers, he, heq⟩
  · rw [heq]
    exact h
  · let s₁ : Session κ := { s with cache := s.cache.forget id }
    have hremoved := h.removeEntry he (Cache.of_not_refersTo hrefers he).1
    have hs₁ : s₁.Balanced (s.cache.entries.remove id) held (e.value :: grip) :=
      hremoved.congr rfl rfl rfl rfl rfl fun _ => rfl
    rw [heq, (s₁.sameHolders_dropHandle e.value).cache_eq]
    exact hs₁.dropHandle

/-- An entry that was kept is let go. -/
theorem Consistent.dropUnlessHeld {id : EntryId}
    (h : s.Consistent (id :: s.inFlight) held grip) :
    s.Settles (s.dropUnlessHeld id) s.inFlight held grip := by
  obtain ⟨hframe, htrace⟩ := s.dropUnlessHeld_frame id
  refine ⟨⟨htrace.owned h.owned, ?_, h.balanced.dropUnlessHeld id,
    hframe.reactions_eq ▸ h.reactions⟩, hframe.inFlight_eq, hframe.leads htrace⟩
  -- an orphan without clients is kept by others, or was kept by what lets go of it
  intro j e he horphan hclients
  rcases s.dropUnlessHeld_cases id with ⟨heq, hreason⟩ | ⟨e₀, _, _, heq⟩
  · rw [heq] at he
    rcases List.mem_cons.1 (h.kept j e he horphan hclients) with rfl | hmem
    · -- it stays because an operation keeps it: no other reason is left for an orphan
      rcases hreason with hmem | hrefers | hnone
      · exact hmem
      · rw [refersTo_of_orphan h.owned he horphan hclients] at hrefers
        exact nomatch hrefers
      · rw [he] at hnone
        exact nomatch hnone
    · exact hmem
  · rw [heq, (sameHolders_dropHandle _ _).cache_eq] at he
    change (s.cache.entries.remove id).get? j = some e at he
    rw [Register.get?_remove] at he
    split at he
    · exact nomatch he
    · rename_i hj
      exact (List.mem_cons.1 (h.kept j e he horphan hclients)).resolve_left (Ne.symm hj)

/-- The first of the entries kept is let go. -/
theorem Consistent.letGo {id : EntryId} (h : s.Consistent s.inFlight held grip)
    (hbase : s.inFlight = id :: base) : s.Settles (s.letGo id) base held grip := by
  let s₁ : Session κ := { s with inFlight := s.inFlight.erase id }
  have hinFlight : s₁.inFlight = base := by
    show s.inFlight.erase id = base
    rw [hbase, List.erase_cons_head]
  have hs₁ : s₁.Consistent (id :: s₁.inFlight) held grip := by
    rw [hinFlight, ← hbase]
    exact ⟨h.owned, h.kept, h.balanced.congr rfl rfl rfl rfl rfl fun _ => rfl, h.reactions⟩
  have hsettles := hs₁.dropUnlessHeld
  rw [hinFlight] at hsettles
  have hleads : s.Leads s₁ := ⟨rfl, rfl, [], rfl, .start, fun _ h => nomatch h⟩
  exact ⟨hsettles.consistent, hsettles.inFlight_eq, hleads.trans hsettles.leads⟩

/-- The entries kept are let go one by one. -/
theorem Consistent.letGoAll (ids : List EntryId) (h : s.Consistent s.inFlight held grip)
    (hbase : s.inFlight = ids ++ base) : s.Settles (ids.foldl Session.letGo s) base held grip := by
  induction ids generalizing s with
  | nil =>
    rw [List.nil_append] at hbase
    exact hbase ▸ h.settles
  | cons id rest ih =>
    have hfirst := h.letGo hbase
    exact hfirst.trans (ih hfirst.own hfirst.inFlight_eq)

/-! ## Tearing down -/

/-- A session whose cache nobody shares has no entries left. -/
def Cleared (s : Session κ) : Prop :=
  s.deserted = true → ∀ id, s.cache.entries.get? id = none

/-- `s'` is `s` with some entries dropped. -/
structure Drops (s s' : Session κ) : Prop where
  frame : s.Frame s'
  clients_eq : s'.clients = s.clients
  cache_eq : s'.cache = { s.cache with entries := s'.cache.entries }
  next_eq : s'.cache.entries.next = s.cache.entries.next
  gone : ∀ j, s.cache.entries.get? j = none → s'.cache.entries.get? j = none

theorem Drops.refl (s : Session κ) : s.Drops s :=
  ⟨.refl s, rfl, rfl, rfl, fun _ h => h⟩

theorem Drops.trans (h : s.Drops s') (h' : s'.Drops s'') : s.Drops s'' where
  frame := h.frame.trans h'.frame
  clients_eq := h'.clients_eq.trans h.clients_eq
  cache_eq := by rw [h'.cache_eq, h.cache_eq]
  next_eq := h'.next_eq.trans h.next_eq
  gone := fun j hj => h'.gone j (h.gone j hj)

theorem drops_dropUnlessHeld (s : Session κ) (id : EntryId) : s.Drops (s.dropUnlessHeld id) := by
  rcases s.dropUnlessHeld_cases id with ⟨heq, _⟩ | ⟨e, _, _, heq⟩
  · rw [heq]
    exact .refl s
  · -- only the table of entries is another one, and it has lost a row
    refine ⟨(s.dropUnlessHeld_frame id).1, ?_, ?_, ?_, fun j hj => ?_⟩
    · rw [heq, (sameHolders_dropHandle _ _).clients_eq]
    · rw [heq, (sameHolders_dropHandle _ _).cache_eq]
      rfl
    · rw [heq, (sameHolders_dropHandle _ _).cache_eq]
      rfl
    · rw [heq, (sameHolders_dropHandle _ _).cache_eq]
      show (s.cache.entries.remove id).get? j = none
      rw [Register.get?_remove, hj, ite_self]

theorem drops_foldl (s : Session κ) (ids : List EntryId) :
    s.Drops (ids.foldl Session.dropUnlessHeld s) := by
  induction ids generalizing s with
  | nil => exact .refl s
  | cons id rest ih => exact (s.drops_dropUnlessHeld id).trans (ih _)

theorem Balanced.foldl_dropUnlessHeld (ids : List EntryId)
    (h : s.Balanced s.cache.entries held grip) :
    (ids.foldl Session.dropUnlessHeld s).Balanced
      (ids.foldl Session.dropUnlessHeld s).cache.entries held grip := by
  induction ids generalizing s with
  | nil => exact h
  | cons id rest ih => exact ih (h.dropUnlessHeld id)

/-- Nobody refers to any entry. -/
def Abandoned (s : Session κ) : Prop :=
  s.inFlight = [] ∧ ∀ id, s.cache.refersTo id = false

/-- Of an abandoned session, an entry is gone once it has been dropped. -/
theorem Abandoned.dropUnlessHeld (h : s.Abandoned) (id : EntryId) :
    (s.dropUnlessHeld id).Abandoned ∧ (s.dropUnlessHeld id).cache.entries.get? id = none := by
  have hdrops := s.drops_dropUnlessHeld id
  rcases s.dropUnlessHeld_cases id with ⟨heq, hreason⟩ | ⟨e, _, _, heq⟩
  · rw [heq]
    refine ⟨h, ?_⟩
    -- nobody refers to the entry, so it stays only if it is gone already
    rcases hreason with hmem | hrefers | hnone
    · rw [h.1] at hmem
      exact absurd hmem List.not_mem_nil
    · rw [h.2] at hrefers
      exact absurd hrefers Bool.false_ne_true
    · exact hnone
  · have hget : ∀ j, (s.dropUnlessHeld id).cache.entries.get? j
        = if id = j then none else s.cache.entries.get? j := by
      intro j
      rw [heq, (sameHolders_dropHandle _ _).cache_eq]
      exact Register.get?_remove s.cache.entries id j
    refine ⟨⟨hdrops.frame.inFlight_eq.trans h.1, fun j => ?_⟩, ?_⟩
    · -- dropping one entry makes nobody refer to another
      have hj := h.2 j
      rw [Cache.refersTo, hget]
      split
      · rfl
      · rename_i hne hget'
        rw [hdrops.cache_eq]
        split at hget'
        · exact absurd hget'.symm (Option.some_ne_none _)
        · rw [Cache.refersTo, hget'] at hj
          exact hj
    · rw [hget, if_pos rfl]

theorem Abandoned.foldl (ids : List EntryId) (h : s.Abandoned) :
    ∀ j ∈ ids, (ids.foldl Session.dropUnlessHeld s).cache.entries.get? j = none := by
  induction ids generalizing s with
  | nil => exact fun _ hj => nomatch hj
  | cons id rest ih =>
    intro j hj
    obtain ⟨habandoned, hnone⟩ := h.dropUnlessHeld id
    rcases List.mem_cons.1 hj with rfl | hrest
    · -- what is gone stays gone
      exact (drops_foldl _ rest).gone j hnone
    · exact ih habandoned j hrest

/-- Nobody has clients in books without clients. -/
theorem Balanced.clients_eq_zero (h : s.Balanced s.cache.entries held grip)
    (hclients : s.clients.isEmpty = true) (id : EntryId) : s.cache.entries.clients id = 0 := by
  rw [h.clients_eq, clientsOf, Register.count_eq_zero_iff]
  intro c client hc
  rw [(Register.isEmpty_iff _).1 hclients c] at hc
  exact absurd hc.symm (Option.some_ne_none _)

/-- Without clients and operations under way, every entry is exclusive. -/
theorem Consistent.mem_policy_ids (h : s.Consistent [] held grip)
    (hclients : s.clients.isEmpty = true) {id : EntryId} {e : Entry κ}
    (he : s.cache.entries.get? id = some e) : id ∈ s.cache.policy.ids := by
  have hzero := h.balanced.clients_eq_zero hclients id
  have horphan : e.orphan = false := by
    rw [Bool.eq_false_iff]
    intro horphan
    rw [EntryTable.clients_of_get? he] at hzero
    exact nomatch h.kept id e he horphan hzero
  have hidle : (e.key, ⟨id, e.size⟩) ∈ s.cache.cached.toList.filter s.cache.idle :=
    List.mem_filter.2 ⟨h.owned.cached_of_entry id e he horphan, decide_eq_true hzero⟩
  rw [Policy.ids_eq_map_items]
  exact List.mem_map_of_mem (h.owned.idle_perm.mem_iff.1 hidle)

/-- The session after the first part of tearing down: nothing is cached any more. -/
private def uncached (s : Session κ) : Session κ :=
  s.cache.cached.values.foldl Session.dropUnlessHeld
    { s with cache := { s.cache with cached := .empty } }

/-- The session in which the policy has lost its entries. -/
private def unqueued (s : Session κ) : Session κ :=
  { s with cache := { s.cache with policy := s.cache.policy.emptied } }

theorem tearDownIfDeserted_of_shared (h : s.deserted = false) : s.tearDownIfDeserted = s := by
  rw [tearDownIfDeserted, h]
  rfl

private theorem tearDownIfDeserted_eq (h : s.deserted = true) : s.tearDownIfDeserted
    = s.uncached.cache.policy.ids.foldl Session.dropUnlessHeld s.uncached.unqueued := by
  rw [tearDownIfDeserted, h]
  rfl

/-- After the first part the policy and the table are those of before, without what was dropped. -/
private theorem uncached_spec (h : s.Balanced s.cache.entries held grip) :
    s.Frame s.uncached ∧ s.uncached.clients = s.clients ∧
      s.uncached.cache
        = { s.cache with cached := .empty, entries := s.uncached.cache.entries } ∧
      s.uncached.cache.entries.next = s.cache.entries.next ∧
      (∀ j, s.cache.entries.get? j = none → s.uncached.cache.entries.get? j = none) ∧
      s.uncached.Balanced s.uncached.cache.entries held grip := by
  -- emptying the map concerns no books
  have hbalanced : ({ s with cache := { s.cache with cached := .empty } } : Session κ).Balanced
      s.cache.entries held grip := h.congr rfl rfl rfl rfl rfl fun _ => rfl
  have hdrops := drops_foldl { s with cache := { s.cache with cached := .empty } }
    s.cache.cached.values
  have hframe : s.Frame { s with cache := { s.cache with cached := .empty } } :=
    ⟨rfl, rfl, rfl, rfl, rfl⟩
  exact ⟨hframe.trans hdrops.frame, hdrops.clients_eq, hdrops.cache_eq, hdrops.next_eq, hdrops.gone,
    hbalanced.foldl_dropUnlessHeld _⟩

/-- Once nothing is cached and the policy is empty, nobody refers to an entry without clients. -/
private theorem abandoned_unqueued (h : s.Balanced s.cache.entries held grip)
    (hcached : s.cache.cached = .empty) (hinFlight : s.inFlight = [])
    (hclients : s.clients.isEmpty = true) : s.unqueued.Abandoned := by
  refine ⟨hinFlight, fun id => ?_⟩
  cases he : s.cache.entries.get? id with
  | none =>
    rw [Cache.refersTo, show s.unqueued.cache.entries.get? id = none from he]
  | some e =>
    -- neither clients, nor the policy, nor the map refers to the entry
    have hzero := h.clients_eq_zero hclients id
    rw [EntryTable.clients_of_get? he] at hzero
    have hholds : s.unqueued.cache.policy.holds e.key id = false := by
      rw [Bool.eq_false_iff]
      intro hholds
      obtain ⟨size, hmem⟩ := (Policy.holds_iff_mem_items _ _ _).1 hholds
      rw [show s.unqueued.cache.policy.items = [] from Policy.items_emptied _] at hmem
      exact absurd hmem List.not_mem_nil
    have hget : s.unqueued.cache.cached.get? e.key ≠ some id := by
      rw [show s.unqueued.cache.cached = .empty from hcached, ne_eq, SizedMap.get?_eq_some_iff]
      rintro ⟨size, hmem⟩
      exact absurd hmem List.not_mem_nil
    rw [Cache.refersTo, show s.unqueued.cache.entries.get? id = some e from he]
    simp only [hzero, hget, hholds, Nat.lt_irrefl, decide_false, Bool.or_false]

/-- A cache whose state nobody shares is torn down, and no entry is left. -/
theorem Consistent.tearDown (h : s.Consistent [] held grip) (hdeserted : s.deserted = true) :
    s.Settles s.tearDownIfDeserted [] held grip ∧
      ∀ id, s.tearDownIfDeserted.cache.entries.get? id = none := by
  obtain ⟨_, hclients, hinFlight⟩ := s.deserted_iff.1 hdeserted
  obtain ⟨hframe, hclients', hcache, hnext, hgone, hbalanced⟩ := uncached_spec h.balanced
  have hcached : s.uncached.cache.cached = .empty := by rw [hcache]
  have hpolicy : s.uncached.cache.policy = s.cache.policy := by rw [hcache]
  have habandoned := abandoned_unqueued hbalanced hcached (hframe.inFlight_eq.trans hinFlight)
    (hclients' ▸ hclients)
  -- emptying the policy concerns no books either
  have hframe' : s.Frame s.uncached.unqueued := hframe.trans ⟨rfl, rfl, rfl, rfl, rfl⟩
  have hbalanced' : s.uncached.unqueued.Balanced s.uncached.unqueued.cache.entries held grip :=
    hbalanced.congr rfl rfl rfl rfl rfl fun _ => rfl
  have hdrops := s.uncached.unqueued.drops_foldl s.uncached.cache.policy.ids
  have hfinal := hbalanced'.foldl_dropUnlessHeld s.uncached.cache.policy.ids
  rw [tearDownIfDeserted_eq hdeserted]
  generalize hs' : s.uncached.cache.policy.ids.foldl Session.dropUnlessHeld s.uncached.unqueued = s' at *
  -- every entry was exclusive, so every entry is dropped
  have hnone : ∀ id, s'.cache.entries.get? id = none := by
    intro id
    cases he : s.cache.entries.get? id with
    | none => exact hdrops.gone id (hgone id he)
    | some e =>
      rw [← hs']
      exact habandoned.foldl _ id (hpolicy ▸ h.mem_policy_ids hclients he)
  -- what is left is the cache torn down, whatever the order of the drops was
  have hend : s'.cache = s.cache.tornDown s'.cache.entries := by
    rw [hdrops.cache_eq]
    show { s.uncached.cache with
      policy := s.uncached.cache.policy.emptied, entries := s'.cache.entries } = _
    rw [hcache]
    rfl
  have htrace : s.cache.Trace [] s'.cache := by
    rw [hend]
    exact .tearDown .start hnone (hdrops.next_eq.trans hnext)
  refine ⟨⟨⟨htrace.owned h.owned, ?_, hfinal, ?_⟩, ?_, (hframe'.trans hdrops.frame).leads htrace⟩,
    hnone⟩
  · -- no entry is left, so no orphan is
    intro id e he
    rw [hnone] at he
    exact nomatch he
  · rw [(hframe'.trans hdrops.frame).reactions_eq]
    exact h.reactions
  · exact (hframe'.trans hdrops.frame).inFlight_eq.trans hinFlight

end Session

end RefCache
