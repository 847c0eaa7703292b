import RefCache.Proofs.Session.Chronicle
import RefCache.Proofs.Session.Histories

/-!
# What holds all along the way of a session

The incidents on the way of a session name the operations that were asked for, each with the cache that was
asked (`asksOf`). `Along Q log s'` says that `Q` holds of these operations and the cache wherever anything is
asked or told, right after every operation, and at the end. To show it, it is enough that operations in good
order preserve `Q`, and that it does not depend on entries that are forgotten (`Proceeds.along`).
-/

namespace RefCache

universe u

variable {κ : Type u} [Key κ]

namespace Session

/-- The operations that were asked for, each with the cache that was asked. -/
def asksOf (log : List (Incident κ)) : List (Asked κ) :=
  log.filterMap fun i => match i.what with
    | .asked op => some ⟨i.state.cache, op⟩
    | _ => none

section Parts

variable (log log' : List (Incident κ)) (s : Session κ) (op : Operation κ) (d : Errand)

@[simp] theorem asksOf_nil : asksOf ([] : List (Incident κ)) = [] := rfl

@[simp] theorem asksOf_append : asksOf (log ++ log') = asksOf log ++ asksOf log' := by
  simp [asksOf]

@[simp] theorem asksOf_asked :
    asksOf (⟨s, .asked op⟩ :: log) = ⟨s.cache, op⟩ :: asksOf log := rfl

@[simp] theorem asksOf_told : asksOf (⟨s, .told d⟩ :: log) = asksOf log := rfl

@[simp] theorem asksOf_answered : asksOf (⟨s, .answered d⟩ :: log) = asksOf log := rfl

end Parts

/-- `Q` holds of the operations so far and of the cache, all the way along the incidents to the session at the
end. A cache that nobody shares any more is taken out of account. -/
structure Along (Q : List (Asked κ) → Cache κ → Prop) (log : List (Incident κ)) (s' : Session κ) :
    Prop where
  at_each : ∀ before i after, log = before ++ i :: after → Q (asksOf before) i.state.cache
  after_each : ∀ before (m : Session κ) op after, log = before ++ ⟨m, .asked op⟩ :: after →
    Q (asksOf before ++ [⟨m.cache, op⟩]) (m.cache.apply op).cache
  at_end : s'.present = true ∨ s'.clients.isEmpty = false → Q (asksOf log) s'.cache

variable {s s' : Session κ} {log : List (Incident κ)} {Q : List (Asked κ) → Cache κ → Prop}

/-- What follows may depend on the operations being among those of the log. -/
theorem Along.imp_of_mem {Q Q' : List (Asked κ) → Cache κ → Prop} (h : Along Q log s')
    (himp : ∀ l c, (∀ x ∈ l, x ∈ asksOf log) → Q l c → Q' l c) : Along Q' log s' where
  at_each := by
    intro before i after hlog
    -- what came before an incident is a part of the log
    refine himp _ _ (fun x hx => ?_) (h.at_each before i after hlog)
    rw [hlog, asksOf_append]
    exact List.mem_append_left _ hx
  after_each := by
    intro before m op after hlog
    -- and so it is together with the operation
    refine himp _ _ (fun x hx => ?_) (h.after_each before m op after hlog)
    rw [hlog, asksOf_append, asksOf_asked, List.append_cons]
    exact List.mem_append_left _ hx
  at_end := fun hshared => himp _ _ (fun _ hx => hx) (h.at_end hshared)

theorem Along.imp {Q Q' : List (Asked κ) → Cache κ → Prop} (h : Along Q log s')
    (himp : ∀ l c, Q l c → Q' l c) : Along Q' log s' :=
  h.imp_of_mem fun l c _ => himp l c

theorem mem_asksOf {x : Asked κ} (hx : x ∈ asksOf log) :
    ∃ i ∈ log, i.what = .asked x.op ∧ i.state.cache = x.cache := by
  obtain ⟨i, hi, heq⟩ := List.mem_filterMap.1 hx
  refine ⟨i, hi, ?_⟩
  split at heq
  · rename_i op hop
    cases heq
    exact ⟨hop, rfl⟩
  · exact nomatch heq

theorem op_mem_askedOf {x : Asked κ} (hx : x ∈ asksOf log) : x.op ∈ askedOf log := by
  obtain ⟨i, hi, hop, _⟩ := mem_asksOf hx
  exact List.mem_filterMap.2 ⟨i, hi, by rw [hop]⟩

/-- Whatever was asked for was asked for in good order. -/
theorem Proceeds.ready_of_mem (h : s.Proceeds log s') {x : Asked κ} (hx : x ∈ asksOf log) : x.Ready := by
  obtain ⟨i, hi, hop, hcache⟩ := mem_asksOf hx
  obtain ⟨_, _, _, hprepared⟩ := h.prepared hi hop
  have hready := hprepared.ready
  rw [hcache] at hready
  exact hready

section Preserved

variable (forget : ∀ l c c', c.Forgets c' → Q l c → Q l c')
  (ask : ∀ l x, x.Ready → Q l x.cache → Q (l ++ [x]) x.after)

include forget ask

/-- What operations preserve holds wherever the session comes to, or the cache has been torn down. -/
theorem Proceeds.dissolved_or (h : s.Proceeds log s') (hs : Q [] s.cache) :
    s'.Dissolved ∨ Q (asksOf log) s'.cache := by
  refine h.invariant (Q := fun l m => m.Dissolved ∨ Q (asksOf l) m.cache) ?_ ?_ (.inr hs)
  · -- changes in between ask nothing, so the list stays as it is
    intro l l' a b heard _ hpasses hasked _ _ hq
    have hnone : asksOf l' = [] := by
      rw [List.eq_nil_iff_forall_not_mem]
      intro x hx
      have hmem := op_mem_askedOf hx
      rw [hasked] at hmem
      exact nomatch hmem
    rw [asksOf_append, hnone, List.append_nil]
    rcases hpasses.forgets with hforgets | hdissolved
    · exact hq.imp hpasses.outlives.dissolved (forget _ _ _ hforgets)
    · exact .inl hdissolved
  · -- an operation is asked of a cache that has not been torn down
    intro l a op held grip _ hprepared hallowed hq
    have hqa := hq.resolve_left (hprepared.not_dissolved hallowed)
    rw [asksOf_append]
    exact .inr (ask _ ⟨a.cache, op⟩ hprepared.ready hqa)

/-- What operations preserve holds all along. -/
theorem Proceeds.along (h : s.Proceeds log s') (hkept : s.KeepsInFlight) (hend : s'.AtRest)
    (hs : Q [] s.cache) : Along Q log s' := by
  have heach : ∀ before i after, log = before ++ i :: after → Q (asksOf before) i.state.cache := by
    intro before i after hlog
    have halive := h.not_dissolved hkept (i := i) (by simp [hlog])
    rw [hlog] at h
    exact (h.split.1.dissolved_or forget ask hs).resolve_left halive
  refine ⟨heach, fun before m op after hlog => ?_, fun hshared => ?_⟩
  · have hready := h.ready_of_mem (x := ⟨m.cache, op⟩) (by simp [hlog])
    exact ask _ _ hready (heach before _ after hlog)
  · exact (h.dissolved_or forget ask hs).resolve_left (hend.not_dissolved hshared)

/-- Every run has its incidents, and what operations preserve holds all along them. -/
theorem exists_along (setup : Setup κ) (steps : List (Step κ)) (hsetup : setup.KeyDetermined)
    (hsteps : ∀ step ∈ steps, step.KeyDetermined) (hstart : Q [] (start setup).cache) :
    ∃ log, (start setup).Reaches [] log ((start setup).runAll steps) ∧
      askedOf log = ((start setup).runAll steps).operations.reverse ∧
      Along Q log ((start setup).runAll steps) := by
  have hrest := atRest_start hsetup
  obtain ⟨log, hlog⟩ := hrest.reaches_runAll steps hsteps
  have hproceeds := hlog.unfolds.proceeds
  have hend := (hrest.trace_runAll steps hsteps).1
  refine ⟨log, hlog, ?_, hproceeds.along forget ask hrest.keepsInFlight hend hstart⟩
  -- nothing had been asked for at the beginning
  rw [hproceeds.follows.operations_eq]
  show askedOf log = ((askedOf log).reverse ++ []).reverse
  simp

end Preserved

end Session

end RefCache
