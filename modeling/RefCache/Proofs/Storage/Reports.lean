import Mathlib.Data.List.Basic
import RefCache.Storage.Eviction

/-!
# Evicting by what removals report

An eviction believes what a removal reports to have freed, whatever was listed. So how far it goes depends on
a storage that may report anything, and fail at any point. A storage that keeps a journal (`Storage.journaled`)
tells which removals were asked of it and what came of each; it does what the storage without one does.

`EvictsByReports` says what an eviction asks for, how it ends and what it leaves, and `evictOldest_reports`
that this is so for any storage and any target. Sizes and reports are natural numbers, so their sums are exact.
-/

namespace RefCache

universe u

/-- The resources of a listing in the order of their last access, those of one time in the order of the
listing. -/
structure SortedByAge (listing sorted : List Listed) : Prop where
  perm : sorted.Perm listing
  ordered : sorted.Pairwise fun a b => a.timestamp ≤ b.timestamp
  stable : ∀ time, sorted.filter (·.timestamp = time) = listing.filter (·.timestamp = time)

theorem Storage.sortedByAge (listing : List Listed) : SortedByAge listing (byAge listing) := by
  have htrans : ∀ a b c : Listed, decide (a.timestamp ≤ b.timestamp) = true →
      decide (b.timestamp ≤ c.timestamp) = true → decide (a.timestamp ≤ c.timestamp) = true := by
    intro a b c hab hbc
    rw [decide_eq_true_eq] at hab hbc ⊢
    exact Nat.le_trans hab hbc
  -- ages are numbers, so the sorting compares them as a total order does
  have htotal : ∀ a b : Listed,
      (decide (a.timestamp ≤ b.timestamp) || decide (b.timestamp ≤ a.timestamp)) = true := by
    intro a b
    rw [Bool.or_eq_true, decide_eq_true_eq, decide_eq_true_eq]
    exact Nat.le_total _ _
  have hperm : (byAge listing).Perm listing := List.mergeSort_perm _ _
  refine ⟨hperm, ?_, fun time => ?_⟩
  · exact (List.pairwise_mergeSort htrans htotal listing).imp of_decide_eq_true
  · -- resources of one time are in order already, so sorting keeps them as they are listed
    have hequal : (listing.filter (·.timestamp = time)).Pairwise
        fun a b => decide (a.timestamp ≤ b.timestamp) = true := by
      refine List.pairwise_of_forall_mem_list fun a ha b hb => ?_
      have hat := of_decide_eq_true (List.mem_filter.1 ha).2
      have hbt := of_decide_eq_true (List.mem_filter.1 hb).2
      rw [hat, hbt, decide_eq_true_eq]
      exact Nat.le_refl _
    have hsub := (List.sublist_mergeSort htrans htotal hequal List.filter_sublist).filter
      (·.timestamp = time)
    simp only [List.filter_filter, Bool.and_self] at hsub
    exact (hsub.eq_of_length (hperm.filter _).length_eq.symm).symm

/-! ## What is asked of a storage -/

/-- A removal that was asked of a storage, and what it answered. -/
structure Removal where
  id : String
  answer : Except StorageError Nat

namespace Removal

/-- The removal was done. -/
def Done (call : Removal) : Prop :=
  ∃ bytes, call.answer = .ok bytes

/-- The bytes that a removal reports to have freed; one that fails reports none. -/
def bytes (call : Removal) : Nat :=
  call.answer.toOption.getD 0

/-- The bytes that all these removals report. -/
def reported (calls : List Removal) : Nat :=
  totalOf bytes calls

@[simp] theorem done_ok (id : String) (bytes : Nat) : Done ⟨id, .ok bytes⟩ := ⟨bytes, rfl⟩

@[simp] theorem not_done_error (id : String) (error : StorageError) : ¬ Done ⟨id, .error error⟩ := nofun

@[simp] theorem reported_nil : reported [] = 0 := rfl

@[simp] theorem reported_cons (call : Removal) (calls : List Removal) :
    reported (call :: calls) = call.bytes + reported calls := rfl

end Removal

namespace Storage

variable {σ : Type u} {ops : Storage σ}

/-- The storage with a journal of the removals that are asked of it, in order. -/
def journaled (ops : Storage σ) : Storage (σ × List Removal) where
  entries s := ops.entries s.1
  remove s id :=
    let (answer, rest) := ops.remove s.1 id
    (answer, rest, s.2 ++ [⟨id, answer⟩])

/-- The removals are done one after the other, with these answers, and nothing else is done. -/
inductive Removes (ops : Storage σ) : σ → List Removal → σ → Prop
  | nil (s : σ) : Removes ops s [] s
  | cons {s s' s'' : σ} {id : String} {answer : Except StorageError Nat} {calls : List Removal} :
    ops.remove s id = (answer, s') → Removes ops s' calls s'' → Removes ops s (⟨id, answer⟩ :: calls) s''

end Storage

/-! ## How a run of removals ends -/

/-- The removals are those of the first resources of a list, as far as it takes for `left` bytes to come down
to `target` by what they report, or up to one that fails. -/
structure StopsByReports (target : Nat) (listed : List Listed) (left : Nat) (calls : List Removal) : Prop where
  /-- Each is asked for once, in order. -/
  first : calls.map Removal.id <+: listed.map Listed.id
  /-- There is another one exactly while none has failed and too much is believed to be left. -/
  goes_on : ∀ n < listed.length, n < calls.length ↔
    (∀ call ∈ calls.take n, call.Done) ∧ target < left - Removal.reported (calls.take n)

namespace StopsByReports

variable {target left bytes : Nat} {e : Listed} {rest listed : List Listed} {calls : List Removal}

theorem nil : StopsByReports target [] left [] :=
  ⟨List.prefix_rfl, fun _ hn => absurd hn (Nat.not_lt_zero _)⟩

theorem of_fits (h : left ≤ target) : StopsByReports target listed left [] := by
  refine ⟨List.nil_prefix, fun n _ => ⟨fun hn => absurd hn (Nat.not_lt_zero _), fun hn => ?_⟩⟩
  rw [List.take_nil] at hn
  exact absurd (Nat.lt_of_lt_of_le hn.2 (Nat.sub_le _ _)) (Nat.not_lt.2 h)

/-- After one removal the others go by what it leaves, if it was done. -/
theorem cons {answer : Except StorageError Nat} (hover : target < left)
    (hfirst : calls.map Removal.id <+: rest.map Listed.id)
    (hrest : ∀ n < rest.length, n < calls.length ↔
      (Removal.Done ⟨e.id, answer⟩ ∧ ∀ call ∈ calls.take n, call.Done) ∧
        target < left - Removal.bytes ⟨e.id, answer⟩ - Removal.reported (calls.take n)) :
    StopsByReports target (e :: rest) left (⟨e.id, answer⟩ :: calls) where
  first := (List.prefix_cons_inj e.id).2 hfirst
  goes_on n hn := by
    cases n with
    | zero => simpa using hover
    | succ n =>
      rw [List.length_cons, Nat.succ_lt_succ_iff] at hn
      rw [List.length_cons, Nat.succ_lt_succ_iff, hrest n hn, List.take_succ_cons, List.forall_mem_cons,
        Removal.reported_cons, ← Nat.sub_sub]

theorem fails (hover : target < left) (error : StorageError) :
    StopsByReports target (e :: rest) left [⟨e.id, .error error⟩] :=
  cons hover List.nil_prefix fun _ _ =>
    ⟨fun hn => absurd hn (Nat.not_lt_zero _), fun hn => absurd hn.1.1 (Removal.not_done_error _ _)⟩

theorem removed (hover : target < left) (h : StopsByReports target rest (left - bytes) calls) :
    StopsByReports target (e :: rest) left (⟨e.id, .ok bytes⟩ :: calls) :=
  cons hover h.first fun n hn => by
    rw [h.goes_on n hn, and_iff_right_of_imp fun _ => Removal.done_ok _ _]
    rfl

end StopsByReports

/-- What becomes of a run of removals: the failure of the last, or what all of them report. -/
structure AnswersByReports (progress : Eviction) (calls : List Removal) (result : Except StorageError Eviction) :
    Prop where
  failure : ∀ call ∈ calls, ∀ error, call.answer = .error error →
    result = .error error ∧ calls.getLast? = some call
  success : (∀ call ∈ calls, call.Done) →
    result = .ok ⟨progress.freed + Removal.reported calls, progress.left - Removal.reported calls⟩

namespace AnswersByReports

variable {progress : Eviction} {bytes : Nat} {calls : List Removal} {result : Except StorageError Eviction}

theorem nil : AnswersByReports progress [] (.ok progress) :=
  ⟨fun _ hcall => absurd hcall List.not_mem_nil, fun _ => rfl⟩

theorem fails (id : String) (error : StorageError) :
    AnswersByReports progress [⟨id, .error error⟩] (.error error) where
  failure call hcall error' herror := by
    rw [List.mem_singleton.1 hcall] at herror ⊢
    exact ⟨by rw [Except.error.inj herror], rfl⟩
  success hdone := absurd (hdone _ List.mem_cons_self) (Removal.not_done_error _ _)

theorem removed (id : String)
    (h : AnswersByReports ⟨progress.freed + bytes, progress.left - bytes⟩ calls result) :
    AnswersByReports progress (⟨id, .ok bytes⟩ :: calls) result where
  failure call hcall error herror := by
    rcases List.mem_cons.1 hcall with rfl | hcall
    · exact nomatch herror
    · obtain ⟨hresult, hlast⟩ := h.failure call hcall error herror
      exact ⟨hresult, by rw [List.getLast?_cons, hlast, Option.getD_some]⟩
  success hdone := by
    rw [h.success fun call hcall => hdone call (List.mem_cons_of_mem _ hcall), Removal.reported_cons,
      ← Nat.add_assoc, ← Nat.sub_sub]
    rfl

end AnswersByReports

namespace Storage

variable {σ : Type u}

/-- A run of removals, with a journal and without: what it asks for and how it ends. -/
theorem removeUntil_journaled (ops : Storage σ) (target : Nat) (listed : List Listed) (progress : Eviction)
    (s : σ) (journal : List Removal) :
    ∃ calls result s',
      ops.journaled.removeUntil target listed progress (s, journal) = (result, s', journal ++ calls) ∧
      ops.removeUntil target listed progress s = (result, s') ∧
      ops.Removes s calls s' ∧
      StopsByReports target listed progress.left calls ∧
      AnswersByReports progress calls result := by
  -- each removal adds to what has been freed and to the journal, so the induction is over any of both
  induction listed generalizing progress s journal with
  | nil =>
    exact ⟨[], .ok progress, s, by rw [List.append_nil]; rfl, rfl, .nil s, .nil, .nil⟩
  | cons e rest ih =>
    rw [removeUntil, removeUntil]
    by_cases hfits : progress.left ≤ target
    · rw [if_pos hfits, if_pos hfits]
      exact ⟨[], .ok progress, s, by rw [List.append_nil], rfl, .nil s, .of_fits hfits, .nil⟩
    · have hover := Nat.lt_of_not_le hfits
      rw [if_neg hfits, if_neg hfits]
      rcases hremove : ops.remove s e.id with ⟨answer, s'⟩
      have hjournal : ops.journaled.remove (s, journal) e.id
          = (answer, s', journal ++ [⟨e.id, answer⟩]) := by
        simp only [journaled, hremove]
      rw [hjournal]
      -- the answer decides whether the walk goes on
      cases answer with
      | error error =>
        exact ⟨[⟨e.id, .error error⟩], .error error, s', rfl, rfl, .cons hremove (.nil s'),
          .fails hover error, .fails e.id error⟩
      | ok bytes =>
        obtain ⟨calls, result, s'', hasked, hplain, hremoves, hstops, hanswers⟩ :=
          ih ⟨progress.freed + bytes, progress.left - bytes⟩ s' (journal ++ [⟨e.id, .ok bytes⟩])
        refine ⟨⟨e.id, .ok bytes⟩ :: calls, result, s'', ?_, hplain, .cons hremove hremoves,
          hstops.removed hover, hanswers.removed e.id⟩
        rw [List.append_assoc, List.singleton_append] at hasked
        exact hasked

/-- An eviction down to `target` asks the storage for the removals `calls`, which leave it as `s'`. -/
structure EvictsByReports (ops : Storage σ) (s : σ) (target : Nat) (listing sorted : List Listed)
    (calls : List Removal) (result : Except StorageError (Option Eviction)) (s' : σ) : Prop where
  sorted_by_age : SortedByAge listing sorted
  asked : ops.journaled.evictOldest (s, []) target = (result, s', calls)
  plain : ops.evictOldest s target = (result, s')
  /-- What has been removed stays removed, and nothing else happens to the storage. -/
  removes : ops.Removes s calls s'
  stops : StopsByReports target sorted (totalOf Listed.size listing) calls
  bounded : calls.length ≤ listing.length
  /-- A removal that fails is the last. -/
  failure : ∀ call ∈ calls, ∀ error, call.answer = .error error →
    result = .error error ∧ calls.getLast? = some call
  /-- The bytes freed are those that the removals report. -/
  success : (∀ call ∈ calls, call.Done) → ∃ eviction, result = .ok eviction ∧
    (eviction.map Eviction.freed).getD 0 = Removal.reported calls

/-- An eviction that meets a listing. -/
theorem exists_evictsByReports (ops : Storage σ) {s : σ} {listing : List Listed}
    (hentries : ops.entries s = .ok listing) (target : Nat) :
    ∃ calls result s', ops.EvictsByReports s target listing (byAge listing) calls result s' := by
  have hjournal : ops.journaled.entries (s, []) = .ok listing := hentries
  -- a storage within its target answers at once, and nothing is asked of it
  by_cases hfits : totalOf Listed.size listing ≤ target
  · refine ⟨[], .ok none, s, sortedByAge listing, ?_, ?_, .nil s, .of_fits hfits,
      Nat.zero_le _, fun _ hcall => absurd hcall List.not_mem_nil, fun _ => ⟨none, rfl, rfl⟩⟩
    · simp only [evictOldest, hjournal, if_pos hfits]
    · simp only [evictOldest, hentries, if_pos hfits]
  · obtain ⟨calls, result, s', hasked, hplain, hremoves, hstops, hanswers⟩ :=
      removeUntil_journaled ops target (byAge listing) ⟨0, totalOf Listed.size listing⟩ s []
    refine ⟨calls, result.map some, s', sortedByAge listing, ?_, ?_, hremoves, hstops, ?_,
      fun call hcall error herror => ?_, fun hdone => ?_⟩
    · simp only [evictOldest, hjournal, if_neg hfits, hasked, List.nil_append]
    · simp only [evictOldest, hentries, if_neg hfits, hplain]
    · have hlength := hstops.first.length_le
      rwa [List.length_map, List.length_map, (sortedByAge listing).perm.length_eq] at hlength
    · obtain ⟨hresult, hlast⟩ := hanswers.failure call hcall error herror
      exact ⟨by rw [hresult]; rfl, hlast⟩
    · refine ⟨some ⟨Removal.reported calls, totalOf Listed.size listing - Removal.reported calls⟩,
        ?_, rfl⟩
      rw [hanswers.success hdone, Nat.zero_add]
      rfl

/-- Whatever a storage reports, and whatever fails: an eviction goes as far as the reports say. -/
theorem evictOldest_reports (ops : Storage σ) (s : σ) (target : Nat) :
    match ops.entries s with
    | .error error =>
      ops.journaled.evictOldest (s, []) target = (.error error, s, []) ∧
        ops.evictOldest s target = (.error error, s)
    | .ok listing => ∃ sorted calls result s',
      ops.EvictsByReports s target listing sorted calls result s' := by
  cases hentries : ops.entries s with
  | error error =>
    have hjournal : ops.journaled.entries (s, []) = .error error := hentries
    simp only [evictOldest, hjournal, hentries, and_self]
  | ok listing => exact ⟨byAge listing, ops.exists_evictsByReports hentries target⟩

/-- A storage of three resources of 4 bytes, two of them last accessed at the same time. It reports less than
was listed, then nothing, and then it fails. -/
def stubborn : Storage Unit where
  entries _ := .ok [⟨"b", ⟨2⟩, 4⟩, ⟨"c", ⟨2⟩, 4⟩, ⟨"a", ⟨1⟩, 4⟩]
  remove _ id := (if id = "a" then .ok 3 else if id = "b" then .ok 0 else .error (.notFound id), ())

example : stubborn.journaled.evictOldest ((), []) 8
    = (.error (.notFound "c"), (), [⟨"a", .ok 3⟩, ⟨"b", .ok 0⟩, ⟨"c", .error (.notFound "c")⟩]) := by
  cbv

end Storage

end RefCache
