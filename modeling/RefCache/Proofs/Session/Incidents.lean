import RefCache.Proofs.Ownership.Notices
import RefCache.Proofs.Ownership.Replay
import RefCache.Proofs.Session.Delivery

/-!
# What happens on the way of a session

A session goes through operations of its cache, through the callbacks of observers, which ask for more
operations, and in between through changes that concern neither (`Passes`). `s.Unfolds errands log s'`
says that the session `s`, with the observers `errands` of one operation still to be told, comes to
`s'`, and `log` is what happens meanwhile, in order: an operation is performed, an observer is told, an
observer has come back. What one observer asks for stands between its call and its return. For most
purposes it does not matter who asks, and what happens is one thing after the other (`Proceeds`).

* `Unfolds.proceeds`, `Proceeds.split`: every state on the way is one that the session comes to, and one
  that it goes on from
* `Proceeds.prepared`, `Proceeds.attends`, `Unfolds.originates`: where an operation is asked for, and
  where an observer is told, things are as they should be
* `Unfolds.flagsOf_deliveredOf`: notices are delivered as operations report them, entry by entry in that
  order
-/

namespace RefCache

universe u

variable {κ : Type u}

/-! ## What observers were told -/

/-- The notice that an observer was told. -/
def Event.notice? : Event κ → Option Notice
  | .told id _ _ exclusive _ => some ⟨id, exclusive⟩
  | _ => none

variable [Key κ]

namespace Session

/-- What observers were told so far, in order. -/
def told (s : Session κ) : List Notice :=
  s.events.reverse.filterMap Event.notice?

/-- A notice of an entry with an observer is told. -/
def announced (s : Session κ) (n : Notice) : List Notice :=
  if (s.cache.entries.get? n.entry).any fun e => e.observer.isSome then [n] else []

theorem told_record (s : Session κ) (e : Event κ) :
    (s.record e).told = s.told ++ e.notice?.toList := by
  rw [told, told, record, List.reverse_cons, List.filterMap_append]
  cases h : e.notice? <;> simp [h]

/-- Every entry that is kept for the time being is still there. -/
def KeepsInFlight (s : Session κ) : Prop :=
  ∀ id ∈ s.inFlight, ∃ e, s.cache.entries.get? id = some e

/-- The cache has been torn down: it has been dropped, and no entry is left. -/
def Dissolved (s : Session κ) : Prop :=
  s.present = false ∧ ∀ id, s.cache.entries.get? id = none

/-- Every client of the second register with a number given out before is one of the first, and of the
same entry. -/
structure Lasting (clients clients' : Register Client) : Prop where
  next_le : clients.next ≤ clients'.next
  earlier : ∀ c client', c < clients.next → clients'.get? c = some client' →
    ∃ client, clients.get? c = some client ∧ client'.entry = client.entry

theorem Lasting.refl (clients : Register Client) : Lasting clients clients :=
  ⟨Nat.le_refl _, fun _ client' _ h => ⟨client', h, rfl⟩⟩

theorem Lasting.trans {a b c : Register Client} (h : Lasting a b) (h' : Lasting b c) :
    Lasting a c where
  next_le := Nat.le_trans h.next_le h'.next_le
  earlier := by
    intro i client'' hi hclient''
    obtain ⟨client', hclient', heq'⟩ :=
      h'.earlier i client'' (Nat.lt_of_lt_of_le hi h.next_le) hclient''
    obtain ⟨client, hclient, heq⟩ := h.earlier i client' hi hclient'
    exact ⟨client, hclient, heq'.trans heq⟩

/-! ## Changes between operations -/

/-- The session changes without an operation of the cache; observers were told the notices `heard`. -/
structure Passes (heard : List Notice) (s s' : Session κ) : Prop where
  operations_eq : s'.operations = s.operations
  told_eq : s'.told = s.told ++ heard
  trace : s.cache.Trace [] s'.cache
  /-- The cache forgets entries at most, or is torn down. -/
  forgets : s.cache.Forgets s'.cache ∨ s'.Dissolved
  /-- A cache that has been dropped does not come back. -/
  present : s'.present = true → s.present = true
  kept : s.KeepsInFlight → s'.KeepsInFlight
  clients : Lasting s.clients s'.clients

theorem Dissolved.of_forgets {s s' : Session κ} (h : s.Dissolved)
    (hforgets : s.cache.Forgets s'.cache) (hpresent : s'.present = true → s.present = true) :
    s'.Dissolved := by
  refine ⟨?_, fun id => ?_⟩
  · cases hs' : s'.present with
    | false => rfl
    | true => exact absurd (hpresent hs') (by simp [h.1])
  · cases he : s'.cache.entries.get? id with
    | none => rfl
    | some e =>
      have hnone := h.2 id
      rw [hforgets.entries.kept id e he] at hnone
      exact nomatch hnone

theorem Passes.refl (s : Session κ) : s.Passes [] s where
  operations_eq := rfl
  told_eq := (List.append_nil _).symm
  trace := .start
  forgets := .inl (.refl _)
  present := fun h => h
  kept := fun h => h
  clients := .refl _

theorem Passes.trans {s s' s'' : Session κ} {heard heard' : List Notice} (h : s.Passes heard s')
    (h' : s'.Passes heard' s'') : s.Passes (heard ++ heard') s'' where
  operations_eq := h'.operations_eq.trans h.operations_eq
  told_eq := by rw [h'.told_eq, h.told_eq, List.append_assoc]
  trace := h.trace.trans h'.trace
  forgets := by
    -- a cache that is torn down stays so, whatever is forgotten later
    rcases h'.forgets with hforgets' | hdissolved
    · rcases h.forgets with hforgets | hdissolved
      · exact .inl (hforgets.trans hforgets')
      · exact .inr (hdissolved.of_forgets hforgets' h'.present)
    · exact .inr hdissolved
  present := fun hpresent => h.present (h'.present hpresent)
  kept := fun hkept => h'.kept (h.kept hkept)
  clients := h.clients.trans h'.clients

end Session

/-! ## The course of a session -/

/-- A notice that is to be delivered, and all that the same operation let go. -/
structure Errand where
  notice : Notice
  detached : List EntryId

namespace Errand

/-- The entries that have to be kept until the notice has been delivered. -/
def keeps (d : Errand) : List EntryId :=
  d.notice.entry :: d.detached

end Errand

/-- What a transition leaves to be told, in order. -/
def Transition.errands (t : Transition κ) : List Errand :=
  t.notices.map (⟨·, t.detached⟩)

/-- What can happen on the way of a session. -/
inductive Happening (κ : Type u) where
  /-- The cache performs an operation. -/
  | asked (op : Operation κ)
  /-- The observer of an entry is told, if it has one. -/
  | told (errand : Errand)
  /-- The observer that was told has come back. -/
  | answered (errand : Errand)

/-- Something that happens, and the session when it does. -/
structure Incident (κ : Type u) [Key κ] where
  state : Session κ
  what : Happening κ

namespace Session

/-- The cache can be asked for the operation: it has not been dropped, or a client lets go. -/
def Allows (s : Session κ) : Operation κ → Prop
  | .release .. => True
  | _ => s.present = true

/-- The session comes to another one by way of the incidents, and tells the observers that are to be
told first. -/
inductive Unfolds : Session κ → List Errand → List (Incident κ) → Session κ → Prop where
  | done (s : Session κ) : Unfolds s [] [] s
  | pass {s s' s'' : Session κ} {log : List (Incident κ)}
      (passes : s.Passes [] s') (rest : Unfolds s' [] log s'') : Unfolds s [] log s''
  | operate {s s' s'' : Session κ} {op : Operation κ} {held : List ClientId} {grip : List ValueId}
      {log log' : List (Incident κ)}
      (prepared : s.Prepared op held grip) (allowed : s.Allows op)
      (delivered : Unfolds (s.adopt op (s.cache.apply op)) (s.cache.apply op).errands log s')
      (rest : Unfolds s' [] log' s'') : Unfolds s [] (⟨s, .asked op⟩ :: (log ++ log')) s''
  | tell {s s₁ s₂ s' : Session κ} {d : Errand} {errands : List Errand} {held held' : List ClientId}
      {grip grip' : List ValueId} {log log' : List (Incident κ)}
      (before : s.Consistent s.inFlight held grip) (keeps : ∀ id ∈ d.keeps, id ∈ s.inFlight)
      (heard : s.Passes (s.announced d.notice) s₁) (answer : Unfolds s₁ [] log s₂)
      (after : s₂.Consistent s₂.inFlight held' grip') (keeps' : ∀ id ∈ d.keeps, id ∈ s₂.inFlight)
      (rest : Unfolds s₂ errands log' s') :
      Unfolds s (d :: errands) (⟨s, .told d⟩ :: (log ++ ⟨s₂, .answered d⟩ :: log')) s'

namespace Unfolds

variable {s s' s'' : Session κ} {errands : List Errand} {log log' : List (Incident κ)}

theorem of_passes (h : s.Passes [] s') : s.Unfolds [] [] s' :=
  .pass h (.done s')

theorem trans (h : s.Unfolds errands log s') (h' : s'.Unfolds [] log' s'') :
    s.Unfolds errands (log ++ log') s'' := by
  induction h with
  | done => exact h'
  | pass passes _ ih => exact .pass passes (ih h')
  | operate prepared allowed delivered _ _ ih =>
    have hrest := Unfolds.operate prepared allowed delivered (ih h')
    rw [List.cons_append, List.append_assoc]
    exact hrest
  | tell before keeps heard answer after keeps' _ _ ih =>
    have hrest := Unfolds.tell before keeps heard answer after keeps' (ih h')
    rw [List.cons_append, List.append_assoc, List.cons_append]
    exact hrest

end Unfolds

/-! ## One thing after the other -/

/-- The session comes to another one by way of the incidents, whoever is the cause of them. -/
inductive Proceeds : Session κ → List (Incident κ) → Session κ → Prop where
  | done (s : Session κ) : Proceeds s [] s
  | pass {s s' s'' : Session κ} {log : List (Incident κ)}
      (passes : s.Passes [] s') (rest : Proceeds s' log s'') : Proceeds s log s''
  | operate {s s' : Session κ} {op : Operation κ} {held : List ClientId} {grip : List ValueId}
      {log : List (Incident κ)} (prepared : s.Prepared op held grip) (allowed : s.Allows op)
      (rest : Proceeds (s.adopt op (s.cache.apply op)) log s') :
      Proceeds s (⟨s, .asked op⟩ :: log) s'
  | tell {s s' s'' : Session κ} {d : Errand} {held : List ClientId} {grip : List ValueId}
      {log : List (Incident κ)} (before : s.Consistent s.inFlight held grip)
      (keeps : ∀ id ∈ d.keeps, id ∈ s.inFlight) (heard : s.Passes (s.announced d.notice) s')
      (rest : Proceeds s' log s'') : Proceeds s (⟨s, .told d⟩ :: log) s''
  | answer {s s' : Session κ} {d : Errand} {held : List ClientId} {grip : List ValueId}
      {log : List (Incident κ)} (after : s.Consistent s.inFlight held grip)
      (keeps : ∀ id ∈ d.keeps, id ∈ s.inFlight) (rest : Proceeds s log s') :
      Proceeds s (⟨s, .answered d⟩ :: log) s'

namespace Proceeds

variable {s s' s'' m : Session κ} {log log' before after : List (Incident κ)} {i : Incident κ}
  {op : Operation κ}

theorem trans (h : s.Proceeds log s') (h' : s'.Proceeds log' s'') :
    s.Proceeds (log ++ log') s'' := by
  induction h with
  | done => exact h'
  | pass passes _ ih => exact .pass passes (ih h')
  | operate prepared allowed _ ih => exact .operate prepared allowed (ih h')
  | tell before keeps heard _ ih => exact .tell before keeps heard (ih h')
  | answer after keeps _ ih => exact .answer after keeps (ih h')

/-- A session comes to every state on its way, and goes on from it. -/
theorem split (h : s.Proceeds (before ++ i :: after) s') :
    s.Proceeds before i.state ∧ i.state.Proceeds (i :: after) s' := by
  generalize hlog : before ++ i :: after = log at h
  -- the state of an incident is the one from which the session goes on with it
  induction h generalizing before with
  -- the list of incidents is not empty, and a change alone is no incident
  | done => simp at hlog
  | pass passes _ ih => exact (ih hlog).imp_left (.pass passes)
  | operate prepared allowed rest ih =>
    cases before with
    | nil =>
      -- the first incident is the one in question
      obtain ⟨rfl, rfl⟩ := List.cons.inj hlog
      exact ⟨.done _, .operate prepared allowed rest⟩
    | cons _ before =>
      -- the incident in question comes later
      obtain ⟨rfl, hrest⟩ := List.cons.inj hlog
      exact (ih hrest).imp_left (.operate prepared allowed)
  | tell consistent keeps heard rest ih =>
    cases before with
    | nil =>
      obtain ⟨rfl, rfl⟩ := List.cons.inj hlog
      exact ⟨.done _, .tell consistent keeps heard rest⟩
    | cons _ before =>
      obtain ⟨rfl, hrest⟩ := List.cons.inj hlog
      exact (ih hrest).imp_left (.tell consistent keeps heard)
  | answer consistent keeps rest ih =>
    cases before with
    | nil =>
      obtain ⟨rfl, rfl⟩ := List.cons.inj hlog
      exact ⟨.done _, .answer consistent keeps rest⟩
    | cons _ before =>
      obtain ⟨rfl, hrest⟩ := List.cons.inj hlog
      exact (ih hrest).imp_left (.answer consistent keeps)

/-- After an operation, the session goes on from what the operation has made of it. -/
theorem operated (h : s.Proceeds (⟨m, .asked op⟩ :: after) s') :
    (m.adopt op (m.cache.apply op)).Proceeds after s' := by
  generalize hlog : (⟨m, .asked op⟩ : Incident κ) :: after = log at h
  -- only changes that are no incidents can come before the operation
  induction h with
  | done => exact nomatch hlog
  | pass _ _ ih => exact ih hlog
  | operate _ _ rest _ =>
    injection hlog with hincident hafter
    injection hincident with hstate hwhat
    injection hwhat with hop
    subst hstate hop hafter
    exact rest
  | tell => simp at hlog
  | answer => simp at hlog

/-- Where an operation is asked for, the session is ready for it. -/
theorem prepared (h : s.Proceeds log s') (hi : i ∈ log) (hop : i.what = .asked op) :
    i.state.Allows op ∧ ∃ held grip, i.state.Prepared op held grip := by
  induction h with
  | done => exact absurd hi List.not_mem_nil
  | pass _ _ ih => exact ih hi
  | operate prepared allowed _ ih =>
    rcases List.mem_cons.1 hi with rfl | hi
    · -- the incident is the operation itself, or comes later
      obtain rfl := Happening.asked.inj hop
      exact ⟨allowed, _, _, prepared⟩
    · exact ih hi
  | tell _ _ _ _ ih =>
    rcases List.mem_cons.1 hi with rfl | hi
    · exact nomatch hop
    · exact ih hi
  | answer _ _ _ ih =>
    rcases List.mem_cons.1 hi with rfl | hi
    · exact nomatch hop
    · exact ih hi

/-- While an observer is told, its entry and all that the operation let go is kept. -/
theorem attends (h : s.Proceeds log s') (hi : i ∈ log) {d : Errand}
    (hd : i.what = .told d ∨ i.what = .answered d) : (∀ id ∈ d.keeps, id ∈ i.state.inFlight) ∧
      ∃ held grip, i.state.Consistent i.state.inFlight held grip := by
  induction h with
  | done => exact absurd hi List.not_mem_nil
  | pass _ _ ih => exact ih hi
  | operate _ _ _ ih =>
    rcases List.mem_cons.1 hi with rfl | hi
    · -- who is told or has come back is no operation
      simp at hd
    · exact ih hi
  | tell consistent keeps _ _ ih =>
    rcases List.mem_cons.1 hi with rfl | hi
    · -- the incident is the notice itself, or comes later
      obtain rfl : _ = d := by simpa using hd
      exact ⟨keeps, _, _, consistent⟩
    · exact ih hi
  | answer consistent keeps _ ih =>
    rcases List.mem_cons.1 hi with rfl | hi
    · obtain rfl : _ = d := by simpa using hd
      exact ⟨keeps, _, _, consistent⟩
    · exact ih hi

end Proceeds

theorem Unfolds.proceeds {s s' : Session κ} {errands : List Errand} {log : List (Incident κ)}
    (h : s.Unfolds errands log s') : s.Proceeds log s' := by
  induction h with
  | done s => exact .done s
  | pass passes _ ih => exact .pass passes ih
  | operate prepared allowed _ _ ih ih' => exact .operate prepared allowed (ih.trans ih')
  | tell before keeps heard _ after keeps' _ ih ih' =>
    exact .tell before keeps heard (ih.trans (.answer after keeps' ih'))

/-! ## Where callbacks come from -/

/-- `Q` holds of every incident and those before it, the first of which are `l`. -/
def AllAlong (Q : List (Incident κ) → Incident κ → Prop) (l : List (Incident κ)) :
    List (Incident κ) → Prop
  | [] => True
  | i :: log => Q l i ∧ AllAlong Q (l ++ [i]) log

namespace AllAlong

variable {Q Q' : List (Incident κ) → Incident κ → Prop} {l log log' : List (Incident κ)}

theorem append (h : AllAlong Q l log) (h' : AllAlong Q (l ++ log) log') :
    AllAlong Q l (log ++ log') := by
  induction log generalizing l with
  | nil => simpa using h'
  | cons i rest ih => exact ⟨h.1, ih h.2 (by simpa using h')⟩

theorem imp (h : AllAlong Q l log) (himp : ∀ l' i, l ⊆ l' → Q l' i → Q' l' i) :
    AllAlong Q' l log := by
  induction log generalizing l with
  | nil => trivial
  | cons i rest ih =>
    refine ⟨himp l i (List.Subset.refl l) h.1, ih h.2 fun l' j hl' => himp l' j ?_⟩
    exact (List.append_subset.1 hl').1

theorem at_split {before after : List (Incident κ)} {i : Incident κ}
    (h : AllAlong Q l (before ++ i :: after)) : Q (l ++ before) i := by
  induction before generalizing l with
  | nil => simpa using h.1
  | cons j rest ih => simpa using ih h.2

end AllAlong

/-- What an observer is told is a consequence of an operation that was asked for before, or was to be
told from the beginning. -/
def Originates (errands : List Errand) (l : List (Incident κ)) (i : Incident κ) : Prop :=
  ∀ d, i.what = .told d ∨ i.what = .answered d → d ∈ errands ∨
    ∃ j ∈ l, ∃ op, j.what = .asked op ∧ d ∈ (j.state.cache.apply op).errands

theorem Unfolds.originates {s s' : Session κ} {errands : List Errand} {log : List (Incident κ)}
    (h : s.Unfolds errands log s') (l : List (Incident κ)) :
    AllAlong (Originates errands) l log := by
  induction h generalizing l with
  | done => trivial
  | pass _ _ ih => exact ih l
  | @operate s _ _ op _ _ log _ _ _ _ _ ih ih' =>
    -- what is told during the delivery is due to this operation, or to one asked for by an observer
    have hdelivered : AllAlong (Originates []) (l ++ [⟨s, .asked op⟩]) log := by
      refine (ih _).imp fun l' i hl' hi d hd => .inr ?_
      rcases hi d hd with hmem | hearlier
      · exact ⟨⟨s, .asked op⟩, hl' (by simp), op, rfl, hmem⟩
      · exact hearlier
    exact ⟨by simp [Originates], hdelivered.append (ih' _)⟩
  | @tell s _ s₂ _ d errands _ _ _ _ log log' _ _ _ _ _ _ _ ih ih' =>
    -- what the observer asks for is due to operations that it has asked for
    have hanswer : AllAlong (Originates (d :: errands)) (l ++ [⟨s, .told d⟩]) log :=
      (ih _).imp fun _ _ _ hi d' hd' => .inr ((hi d' hd').resolve_left List.not_mem_nil)
    have hrest : AllAlong (Originates (d :: errands))
        (l ++ [⟨s, .told d⟩] ++ log ++ [⟨s₂, .answered d⟩]) log' :=
      (ih' _).imp fun _ _ _ hi d' hd' => (hi d' hd').imp_left (List.mem_cons_of_mem _)
    exact ⟨by simp [Originates], hanswer.append ⟨by simp [Originates], hrest⟩⟩

/-! ## The order in which observers are told -/

/-- The operations that a cache was asked for. -/
def askedOf (log : List (Incident κ)) : List (Operation κ) :=
  log.filterMap fun i => match i.what with
    | .asked op => some op
    | _ => none

/-- What these operations reported. -/
def reportedOf (log : List (Incident κ)) : List Notice :=
  log.flatMap fun i => match i.what with
    | .asked op => (i.state.cache.apply op).notices
    | _ => []

/-- The notices that were delivered, whether or not there was an observer. -/
def deliveredOf (log : List (Incident κ)) : List Notice :=
  log.filterMap fun i => match i.what with
    | .told d => some d.notice
    | _ => none

/-- The notices that were delivered to an observer. -/
def announcedOf (log : List (Incident κ)) : List Notice :=
  log.flatMap fun i => match i.what with
    | .told d => i.state.announced d.notice
    | _ => []

section Parts

variable (log log' : List (Incident κ)) (s : Session κ) (op : Operation κ) (d : Errand)

@[simp] theorem askedOf_nil : askedOf ([] : List (Incident κ)) = [] := rfl

@[simp] theorem askedOf_append : askedOf (log ++ log') = askedOf log ++ askedOf log' := by
  simp [askedOf]

@[simp] theorem askedOf_asked : askedOf (⟨s, .asked op⟩ :: log) = op :: askedOf log := rfl

@[simp] theorem askedOf_told : askedOf (⟨s, .told d⟩ :: log) = askedOf log := rfl

@[simp] theorem askedOf_answered : askedOf (⟨s, .answered d⟩ :: log) = askedOf log := rfl

@[simp] theorem reportedOf_nil : reportedOf ([] : List (Incident κ)) = [] := rfl

@[simp] theorem reportedOf_append : reportedOf (log ++ log') = reportedOf log ++ reportedOf log' := by
  simp [reportedOf]

@[simp] theorem reportedOf_asked :
    reportedOf (⟨s, .asked op⟩ :: log) = (s.cache.apply op).notices ++ reportedOf log := rfl

@[simp] theorem reportedOf_told : reportedOf (⟨s, .told d⟩ :: log) = reportedOf log := rfl

@[simp] theorem reportedOf_answered : reportedOf (⟨s, .answered d⟩ :: log) = reportedOf log := rfl

@[simp] theorem deliveredOf_nil : deliveredOf ([] : List (Incident κ)) = [] := rfl

@[simp] theorem deliveredOf_append :
    deliveredOf (log ++ log') = deliveredOf log ++ deliveredOf log' := by
  simp [deliveredOf]

@[simp] theorem deliveredOf_asked : deliveredOf (⟨s, .asked op⟩ :: log) = deliveredOf log := rfl

@[simp] theorem deliveredOf_told :
    deliveredOf (⟨s, .told d⟩ :: log) = d.notice :: deliveredOf log := rfl

@[simp] theorem deliveredOf_answered : deliveredOf (⟨s, .answered d⟩ :: log) = deliveredOf log := rfl

@[simp] theorem announcedOf_nil : announcedOf ([] : List (Incident κ)) = [] := rfl

@[simp] theorem announcedOf_append :
    announcedOf (log ++ log') = announcedOf log ++ announcedOf log' := by
  simp [announcedOf]

@[simp] theorem announcedOf_asked : announcedOf (⟨s, .asked op⟩ :: log) = announcedOf log := rfl

@[simp] theorem announcedOf_told :
    announcedOf (⟨s, .told d⟩ :: log) = s.announced d.notice ++ announcedOf log := rfl

@[simp] theorem announcedOf_answered : announcedOf (⟨s, .answered d⟩ :: log) = announcedOf log := rfl

end Parts

/-- Every operation that was asked for was asked for at some time. -/
theorem exists_asked {log : List (Incident κ)} {ops ops' : List (Operation κ)} {op : Operation κ}
    (h : askedOf log = ops ++ op :: ops') :
    ∃ before m after, log = before ++ ⟨m, .asked op⟩ :: after ∧ askedOf before = ops := by
  -- what comes before and after the operation on the list of operations comes so in the log
  obtain ⟨l₁, l₂, rfl, hops, hrest⟩ := List.filterMap_eq_append_iff.1 h
  obtain ⟨l₃, i, l₄, rfl, hnone, hi, _⟩ := List.filterMap_eq_cons_iff.1 hrest
  have hskipped : askedOf l₃ = [] := List.filterMap_eq_nil_iff.2 hnone
  obtain ⟨m, what⟩ := i
  cases what with
  | asked op' =>
    -- the incident found is the operation; no other kind is on the list
    obtain rfl : op' = op := Option.some.inj hi
    refine ⟨l₁ ++ l₃, m, l₄, by simp, ?_⟩
    rw [askedOf_append, hskipped, List.append_nil]
    exact hops
  | told d => exact nomatch hi
  | answered d => exact nomatch hi

variable {s s' : Session κ} {errands : List Errand} {log : List (Incident κ)}

/-- What has left stays away while an operation is performed. -/
theorem Prepared.evolves {op : Operation κ} {held : List ClientId} {grip : List ValueId}
    (h : s.Prepared op held grip) : s.cache.entries.Evolves (s.cache.apply op).cache.entries :=
  (s.cache.evolves_tableAfter op).trans h.orderly.marks.evolves

theorem Prepared.reports {op : Operation κ} {held : List ClientId} {grip : List ValueId}
    (h : s.Prepared op held grip) : s.cache.Reports (s.cache.apply op) :=
  Cache.apply_reports h.owned h.kept h.determined h.accepts

/-- An entry that has left is not reported again. -/
theorem Proceeds.flagsOf_reportedOf (h : s.Proceeds log s') {id : EntryId}
    (hid : s.cache.Departed id) : s'.cache.Departed id ∧ flagsOf id (reportedOf log) = [] := by
  induction h with
  | done => exact ⟨hid, rfl⟩
  | pass passes _ ih => exact ih (hid.evolves passes.trace.evolves_of_nil)
  | operate prepared _ _ ih =>
    obtain ⟨hend, hrest⟩ := ih (hid.evolves prepared.evolves)
    exact ⟨hend, by simp [prepared.reports.flagsOf_of_departed hid, hrest]⟩
  | tell _ _ heard _ ih => simpa using ih (hid.evolves heard.trace.evolves_of_nil)
  | answer _ _ _ ih => simpa using ih hid

/-- Entry by entry, notices are delivered in the order in which operations reported them. -/
theorem Unfolds.flagsOf_deliveredOf (h : s.Unfolds errands log s')
    (hlate : ∀ d ∈ errands.tail, s.cache.Departed d.notice.entry) (id : EntryId) :
    flagsOf id (deliveredOf log)
      = flagsOf id (errands.map Errand.notice) ++ flagsOf id (reportedOf log) := by
  induction h with
  | done => rfl
  | pass _ _ ih => exact ih fun _ hd => nomatch hd
  | @operate s _ _ op _ _ _ _ prepared _ _ _ ih ih' =>
    have hnotices : (s.cache.apply op).errands.map Errand.notice = (s.cache.apply op).notices := by
      simp [Transition.errands, Function.comp_def]
    -- all but the first notice are about entries that the operation has made leave
    have hdelivered := ih fun d hd => by
      rw [Transition.errands, ← List.map_tail] at hd
      obtain ⟨n, hn, rfl⟩ := List.mem_map.1 hd
      exact prepared.reports.late n hn
    have hrest := ih' fun _ hd => nomatch hd
    rw [hnotices] at hdelivered
    simp [hdelivered, hrest]
  | @tell s s₁ s₂ s' d errands _ _ _ _ log log' _ _ heard answer _ _ _ ih ih' =>
    have hevolves := heard.trace.evolves_of_nil
    have hgone : ∀ d' ∈ errands, s₁.cache.Departed d'.notice.entry :=
      fun d' hd' => (hlate d' hd').evolves hevolves
    -- what the observer asks for is delivered before it comes back
    have hnested := ih fun _ hd => nomatch hd
    have hrest := ih' fun d' hd' =>
      (answer.proceeds.flagsOf_reportedOf (hgone d' (List.mem_of_mem_tail hd'))).1
    -- what is still to be told is about entries that the callback cannot report
    have hswap : flagsOf id (reportedOf log) ++ flagsOf id (errands.map Errand.notice)
        = flagsOf id (errands.map Errand.notice) ++ flagsOf id (reportedOf log) := by
      by_cases hmem : ∃ d' ∈ errands, d'.notice.entry = id
      · obtain ⟨d', hd', rfl⟩ := hmem
        simp [(answer.proceeds.flagsOf_reportedOf (hgone d' hd')).2]
      · have hnone : flagsOf id (errands.map Errand.notice) = [] := by
          refine flagsOf_eq_nil fun n hn heq => hmem ?_
          obtain ⟨d', hd', rfl⟩ := List.mem_map.1 hn
          exact ⟨d', hd', heq⟩
        simp [hnone]
    simp only [deliveredOf_told, deliveredOf_append, deliveredOf_answered, reportedOf_told,
      reportedOf_append, reportedOf_answered, List.map_cons, flagsOf_cons, flagsOf_append, hnested,
      hrest, List.map_nil, flagsOf_nil, List.nil_append, List.append_assoc]
    rw [← List.append_assoc (flagsOf id (reportedOf log)), hswap, List.append_assoc]

end Session

end RefCache
