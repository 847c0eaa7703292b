import RefCache.Proofs.Session.Histories

/-!
# Callbacks come after the transition

Observers may ask the cache for anything while an operation has not come to its end yet. The session is
all the same what its operations make of it one after the other, each as if nobody were told
(`Cache.apply`), in the order in which they were asked for: an operation before what its observers ask
for, and that before what the next observer is told (`Session.Serialised`). An observer finds a
consistent session, and nothing that the operation has let go is released before all of its observers
have been told (`Session.Attended`).
-/

namespace RefCache

universe u

namespace Session

variable {κ : Type u} [Key κ]

/-- How things stand when an observer is told, or has come back, after the incidents `before`. -/
structure Attended (s : Session κ) (before : List (Incident κ)) (m : Session κ) (d : Errand) :
    Prop where
  /-- Map, pools, counters and references agree, references in the hands of operations included. -/
  consistent : ∃ held grip, m.Consistent m.inFlight held grip
  /-- The map, the policy with its ghosts, the limits and the counters are what the operations asked
  for so far have made of them, and entries are as they have left them, but for orphans without
  clients that are gone. -/
  replayed : (s.cache.applyAll (askedOf before)).Forgets m.cache
  /-- The observer is told of an operation asked for before, and no value that this operation has
  detached is released. -/
  unreleased : ∃ i ∈ before, ∃ op, i.what = .asked op ∧ d ∈ (i.state.cache.apply op).errands ∧
    ∀ id ∈ (i.state.cache.apply op).detached, ∃ e value,
      (i.state.cache.apply op).cache.entries.get? id = some e ∧
        m.values.get? e.value = some value ∧ m.releases e.value = 0

/-- The session comes to the other one by operations one after the other. -/
structure Serialised (s : Session κ) (log : List (Incident κ)) (s' : Session κ) : Prop where
  /-- What an observer asks for comes between what it is told and its return, and all of this after
  the operation it is told of. -/
  unfolds : s.Unfolds [] log s'
  /-- The operations are those that the session has written down. -/
  operations_eq : s'.operations.reverse = s.operations.reverse ++ askedOf log
  /-- The callbacks are those that observers have seen. -/
  told_eq : s'.told = s.told ++ announcedOf log
  /-- Unless nobody shares the cache any more, it is what the operations have made of it. A reference
  that an operation returns is held until the operation that lets go of it. -/
  replayed : s'.present = true ∨ s'.clients.isEmpty = false →
    (s.cache.applyAll (askedOf log)).Forgets s'.cache
  attended : ∀ before i after, log = before ++ i :: after →
    ∀ d, i.what = .told d ∨ i.what = .answered d → s.Attended before i.state d

variable {s s' : Session κ} {log : List (Incident κ)}

theorem Unfolds.attended (h : s.Unfolds [] log s') (hkept : s.KeepsInFlight)
    {before after : List (Incident κ)} {i : Incident κ} (hlog : log = before ++ i :: after)
    {d : Errand} (hd : i.what = .told d ∨ i.what = .answered d) : s.Attended before i.state d := by
  have hi : i ∈ log := by simp [hlog]
  have hproceeds := h.proceeds
  have halive := hproceeds.not_dissolved hkept hi
  obtain ⟨hkeeps, held, grip, hconsistent⟩ := hproceeds.attends hi hd
  obtain ⟨j, hj, op, hop, hmem⟩ : ∃ j ∈ before, ∃ op, j.what = .asked op ∧
      d ∈ (j.state.cache.apply op).errands :=
    ((hlog ▸ h.originates []).at_split d hd).resolve_left List.not_mem_nil
  obtain ⟨_, _, _, hprepared⟩ := hproceeds.prepared (i := j) (by simp [hlog, hj]) hop
  obtain ⟨hbefore, _⟩ := (hlog ▸ hproceeds).split
  refine ⟨⟨held, grip, hconsistent⟩, hbefore.follows.replay.resolve_left halive, j, hj, op, hop, hmem,
    fun id hid => ?_⟩
  -- what the operation has detached is in its table, and kept while observers are told
  obtain ⟨_, he', _⟩ := hprepared.reports.detached id hid
  obtain ⟨e, he⟩ := hprepared.exists_later he'
  obtain ⟨n, _, rfl⟩ := List.mem_map.1 hmem
  obtain ⟨e', he'⟩ := hbefore.keepsInFlight hkept id (hkeeps id (List.mem_cons_of_mem _ hid))
  obtain ⟨e₀, he₀, hbecomes⟩ :=
    (hbefore.evolves_since hj hop).earlier id e' (Register.lt_next_of_get? _ he) he'
  obtain rfl : e₀ = e := Option.some.inj (he₀.symm.trans he)
  obtain ⟨value, hvalue⟩ := hconsistent.balanced.unreleased he'
  exact ⟨e₀, value, he, hbecomes.value_eq ▸ hvalue⟩

/-- The observer of a value that has become exclusive asks for it. -/
def askedBack : Setup Nat where
  defaultObserver := some "o"
  reactions := [{ key := 1, exclusive := true, requests := [.get 1 (some "r"), .clear] }]

end Session

end RefCache
