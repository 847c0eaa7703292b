import RefCache.Proofs.Session.Reachable

/-!
# Values are released exactly once

Whoever holds a value is outside, under the name of a handle, or is an entry that is cached or has a
client. `Session.ReleasedOnce` says that a value is there as long as somebody holds it, that the
handles it counts are its holders, and that its release is seen once, when there are none. It holds of
every session that can be reached (`Reachable.releasedOnce`), whether the cache has been dropped or
not.
-/

namespace RefCache

universe u

namespace Session

variable {κ : Type u} [Key κ]

/-- The entry of a row is cached, or some client holds it. -/
def live (s : Session κ) (id : EntryId) (e : Entry κ) : Bool :=
  s.cache.cached.get? e.key = some id || 0 < e.clients

/-- The number of entries that carry a value and are cached or have clients. -/
def liveCarriers (s : Session κ) (v : ValueId) : Nat :=
  s.cache.entries.rows.toList.countP fun row => row.2.value = v && s.live row.1 row.2

/-- Nobody is left who could ask for anything: the cache, all references and all handles are gone. -/
structure Gone (s : Session κ) : Prop where
  cache : s.present = false
  refs : s.refs.isEmpty = true
  handles : s.handles.isEmpty = true

/-- Every value is released when its last holder goes, and only then. -/
structure ReleasedOnce (s : Session κ) : Prop where
  /-- A value counts the handles held outside and the live entries that carry it. -/
  handles_counted : ∀ v, s.handlesOf v = s.namesOf v + s.liveCarriers v
  /-- A value is there as long as it counts somebody. -/
  there_iff : ∀ v, (s.values.get? v).isSome = true ↔ 0 < s.handlesOf v
  /-- The releaser of a value that has one has run once if nobody holds the value, and has not run
  otherwise; nothing else is ever released. -/
  releases_eq : ∀ v, s.releases v
    = if (s.creation? v).any NewValue.reported ∧ s.handlesOf v = 0 then 1 else 0
  /-- When everybody is gone, nobody holds a value, so every value has been released. -/
  nothing_left : s.Gone → ∀ v, s.handlesOf v = 0

variable {s : Session κ}

/-- At rest every entry of the table is live. -/
theorem AtRest.live (h : s.AtRest) {id : EntryId} {e : Entry κ}
    (he : s.cache.entries.get? id = some e) : s.live id e = true := by
  rw [Session.live, Bool.or_eq_true]
  cases horphan : e.orphan with
  | false =>
    have hmem := h.consistent.owned.cached_of_entry id e he horphan
    exact .inl (decide_eq_true ((s.cache.cached.get?_eq_some_iff _ _).2 ⟨_, hmem⟩))
  | true =>
    refine .inr (decide_eq_true (Nat.pos_of_ne_zero fun hzero => ?_))
    exact nomatch h.consistent.kept id e he horphan hzero

theorem AtRest.liveCarriers_eq (h : s.AtRest) (v : ValueId) :
    s.liveCarriers v = s.cache.entries.carriers v := by
  refine List.countP_congr fun row hrow => ?_
  have he : s.cache.entries.get? row.1 = some row.2 :=
    Std.TreeMap.mem_toList_iff_getElem?_eq_some.1 hrow
  rw [h.live he, Bool.and_true]

/-- Where no reference is held, no client is left. -/
theorem AtRest.clients_isEmpty (h : s.AtRest) (hrefs : s.refs.isEmpty = true) :
    s.clients.isEmpty = true := by
  rw [Register.isEmpty_iff]
  intro c
  cases hc : s.clients.get? c with
  | none => rfl
  | some client =>
    have hpos := h.refsOf_pos hc
    have hzero : s.refsOf c = 0 := rowCount_of_isEmpty _ hrefs _
    omega

/-- In every session that can be reached, values are released when their last holder goes. -/
theorem Reachable.releasedOnce (h : s.Reachable) : s.ReleasedOnce := by
  have hrest := h.atRest
  have hbooks := hrest.consistent.balanced
  -- at rest nothing is in flight, so what carries a value is an entry of the table
  have hcounted : ∀ v, s.handlesOf v = s.namesOf v + s.liveCarriers v := by
    intro v
    rw [hrest.liveCarriers_eq]
    exact hbooks.handles_eq v
  -- a value is kept as long as it has handles
  have hthere : ∀ v, (s.values.get? v).isSome = true ↔ 0 < s.handlesOf v := by
    intro v
    cases hv : s.values.get? v with
    | none =>
      rw [handlesOf, Register.readout_of_none _ _ hv]
      exact ⟨fun h => absurd h Bool.false_ne_true, fun h => absurd h (Nat.lt_irrefl 0)⟩
    | some value =>
      rw [handlesOf, Register.readout_of_some _ _ hv]
      exact ⟨fun _ => hbooks.handles_pos v value hv, fun _ => rfl⟩
  refine ⟨hcounted, hthere, fun v => ?_, fun hgone v => ?_⟩
  · -- a release is due when the value is gone, that is when nobody counts for it
    have hdue : s.ReleaseDue v = true ↔
        (s.creation? v).any NewValue.reported = true ∧ s.handlesOf v = 0 := by
      have hgone : (s.values.get? v).isNone = true ↔ s.handlesOf v = 0 := by
        rw [← Option.not_isSome, Bool.not_eq_true', ← Bool.not_eq_true, hthere]
        omega
      rw [ReleaseDue, Bool.and_eq_true, hgone, and_comm]
    rw [hbooks.releases_eq v]
    simp only [hdue]
  · -- without references there are no clients, so the cache has been torn down
    have hempty := hrest.clients_isEmpty hgone.refs
    have hnone := hrest.cleared (s.deserted_iff.2 ⟨hgone.cache, hempty, hrest.inFlight_eq⟩)
    have hcarriers : s.cache.entries.carriers v = 0 := by
      rw [EntryTable.carriers, Register.count_eq_zero_iff]
      intro id e he
      rw [hnone] at he
      exact absurd he.symm (Option.some_ne_none _)
    have hnames : s.namesOf v = 0 := rowCount_of_isEmpty _ hgone.handles _
    rw [hcounted, hrest.liveCarriers_eq, hcarriers, hnames]

/-- A value is cached and its reference is held while the cache is dropped; then the reference is
closed. -/
def droppedBeforeReference : List (Step Nat) :=
  [.request (.put 1 { tag := "a", size := 10 } none (some "r")), .dropCache,
    .request (.closeRef "r")]

theorem releasedOnce_droppedBeforeReference :
    ((start {}).runAll droppedBeforeReference).ReleasedOnce ∧
      ((start {}).runAll (droppedBeforeReference.take 2)).releases 0 = 0 ∧
      ((start {}).runAll droppedBeforeReference).releases 0 = 1 := by
  have hreachable : ((start {}).runAll droppedBeforeReference).Reachable := by
    refine ⟨{}, droppedBeforeReference, (fun _ hr => nomatch hr), fun step hstep => ?_, rfl⟩
    simp only [droppedBeforeReference, List.mem_cons, List.not_mem_nil, or_false] at hstep
    rcases hstep with rfl | rfl | rfl
    · trivial
    · trivial
    · trivial
  exact ⟨hreachable.releasedOnce, by decide +kernel, by decide +kernel⟩

/-- Observers can drop references when the cache is gone already: here the first reference is closed, and the
observer of its entry closes the second one. Only then is the cache torn down. -/
example :
    let value (tag : String) : NewValue := { tag := tag, size := 10 }
    let s := (start { defaultObserver := some "o", reactions := [⟨1, true, [.closeRef "b"]⟩] }).runAll
      [.request (.put 1 (value "a") none (some "a")), .request (.put 2 (value "b") none (some "b")),
        .dropCache, .request (.closeRef "a")]
    s.refs.isEmpty = true ∧ s.clients.isEmpty = true ∧ s.releases 0 = 1 ∧ s.releases 1 = 1 := by
  decide +kernel

end Session

end RefCache
