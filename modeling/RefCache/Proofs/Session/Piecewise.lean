import RefCache.Proofs.Session.Consistency
import RefCache.Session.Step

/-!
# What becomes of a session, piece by piece

Whatever is requested, by whomever, and whatever predicates answer: all that becomes of a session is made of
a few kinds of changes. The books change, while the cache, its journal and the count of polls stay as they
are; an entry that nobody holds is let go; a cache that nobody shares is torn down; and an operation is adopted.
So a relation that holds over each of these (`Session.Piecewise`) holds over every run (`Piecewise.runAll`).
-/

namespace RefCache

universe u v

variable {κ : Type u} [Key κ]

namespace Session

/-- The relation holds over all that becomes of a session, since it does so piece by piece. -/
structure Piecewise (R : Session κ → Session κ → Prop) : Prop where
  trans : ∀ {s s' s'' : Session κ}, R s s' → R s' s'' → R s s''
  /-- Changes that leave the cache, what it was asked, and the count of polls alone. -/
  books : ∀ {s s' : Session κ}, s'.cache = s.cache → s'.operations = s.operations →
    s'.polls = s.polls → R s s'
  dropUnlessHeld : ∀ (s : Session κ) (id : EntryId), R s (s.dropUnlessHeld id)
  tearDownIfDeserted : ∀ s : Session κ, R s s.tearDownIfDeserted
  adopt : ∀ (s : Session κ) (op : Operation κ), R s (s.adopt op (s.cache.apply op))

/-- The relation holds over every request, however it is performed. -/
def RespondsWithin (R : Session κ → Session κ → Prop) (respond : Responder κ) : Prop :=
  ∀ (s : Session κ) r, R s (respond s r).1

theorem polls_dropHandle (s : Session κ) (v : ValueId) : (s.dropHandle v).polls = s.polls := by
  unfold dropHandle
  split
  · rfl
  · split
    · dsimp only
      split <;> rfl
    · rfl

theorem polls_placeHandle (s : Session κ) (v : ValueId) (into : Option String) :
    (s.placeHandle v into).polls = s.polls := by
  unfold placeHandle
  cases into with
  | none => exact s.polls_dropHandle v
  | some name =>
    dsimp only
    split
    · rfl
    · exact polls_dropHandle _ _

namespace Piecewise

variable {R : Session κ → Session κ → Prop} {s s' s'' : Session κ} {respond : Responder κ}

theorem refl (h : Piecewise R) (s : Session κ) : R s s :=
  h.books rfl rfl rfl

/-- What comes after changes to the books. -/
theorem after_books (h : Piecewise R) (hR : R s' s'') (hcache : s'.cache = s.cache)
    (hops : s'.operations = s.operations) (hpolls : s'.polls = s.polls) : R s s'' :=
  h.trans (h.books hcache hops hpolls) hR

theorem foldl (h : Piecewise R) {α : Type v} {f : Session κ → α → Session κ}
    (hf : ∀ (s : Session κ) a, R s (f s a)) (as : List α) (s : Session κ) : R s (as.foldl f s) := by
  induction as generalizing s with
  | nil => exact h.refl s
  | cons a rest ih => exact h.trans (hf s a) (ih _)

theorem dropHandle (h : Piecewise R) (s : Session κ) (v : ValueId) : R s (s.dropHandle v) :=
  h.books (s.sameHolders_dropHandle v).cache_eq (s.sameHolders_dropHandle v).operations_eq (s.polls_dropHandle v)

theorem placeHandle (h : Piecewise R) (s : Session κ) (v : ValueId) (into : Option String) :
    R s (s.placeHandle v into) :=
  h.books (s.sameHolders_placeHandle v into).cache_eq (s.sameHolders_placeHandle v into).operations_eq
    (s.polls_placeHandle v into)

theorem letGo (h : Piecewise R) (s : Session κ) (id : EntryId) : R s (s.letGo id) := by
  let s' : Session κ := { s with inFlight := s.inFlight.erase id }
  exact h.after_books (h.dropUnlessHeld s' id) rfl rfl rfl

/-! ## Consequences -/

theorem reactOnce (h : Piecewise R) (hrespond : RespondsWithin R respond) (k : κ) (s : Session κ)
    (r : Request κ) : R s (s.reactOnce respond k r) := by
  unfold Session.reactOnce
  split
  · exact h.refl s
  · exact h.trans (hrespond s r) (h.books rfl rfl rfl)

theorem react (h : Piecewise R) (hrespond : RespondsWithin R respond) (s : Session κ) (k : κ)
    (exclusive : Bool) : R s (s.react respond k exclusive) := by
  unfold Session.react
  split
  · exact h.refl s
  · rename_i reaction rest _
    exact h.after_books (h.foldl (h.reactOnce hrespond k) reaction.requests { s with reactions := rest }) rfl rfl rfl

theorem tell (h : Piecewise R) (hrespond : RespondsWithin R respond) (s : Session κ) (n : Notice) :
    R s (s.tell respond n) := by
  unfold Session.tell
  split
  · exact h.refl s
  · split
    · exact h.refl s
    · exact h.after_books (h.react hrespond (s.record _) _ _) rfl rfl rfl

/-- An operation whose books are ready in `s'`. -/
theorem finish (h : Piecewise R) (hrespond : RespondsWithin R respond) (s s' : Session κ) (op : Operation κ)
    (hcache : s'.cache = s.cache) (hops : s'.operations = s.operations) (hpolls : s'.polls = s.polls) :
    R s (s'.finish respond op (s.cache.apply op)) := by
  have hadopted : R s' (s'.adopt op (s.cache.apply op)) := hcache ▸ h.adopt s' op
  exact h.trans (h.after_books hadopted hcache hops hpolls)
    (h.trans (h.foldl (h.tell hrespond) _ _) (h.foldl h.letGo _ _))

/-! ## References -/

theorem dropRef (h : Piecewise R) (hrespond : RespondsWithin R respond) (s : Session κ) (c : ClientId) :
    R s (s.dropRef respond c) := by
  unfold Session.dropRef
  split
  · exact h.refl s
  · dsimp only
    split
    · exact h.books rfl rfl rfl
    · rename_i client _ _
      let s' := (({ s with clients := s.clients.remove c }).keep client.entry).afterReading
      have hreleased := h.finish hrespond s s' (.release s.surroundings client.entry) rfl rfl rfl
      exact h.trans (h.trans hreleased (h.letGo _ _)) (h.tearDownIfDeserted _)

theorem placeRef (h : Piecewise R) (hrespond : RespondsWithin R respond) (s : Session κ) (c : ClientId)
    (into : Option String) : R s (s.placeRef respond c into) := by
  unfold Session.placeRef
  split
  · exact h.dropRef hrespond s c
  · rename_i name
    let s' : Session κ := { s with refs := s.refs.insert name c }
    dsimp only
    split
    · exact h.books rfl rfl rfl
    · exact h.after_books (h.dropRef hrespond s' _) rfl rfl rfl

/-! ## Requests -/

theorem storeValue (h : Piecewise R) (hrespond : RespondsWithin R respond) (s : Session κ) (k : κ) (v : ValueId)
    (observer : Option String) : R s (s.storeValue respond k v observer).2 := by
  unfold Session.storeValue
  dsimp only
  split
  · exact h.finish hrespond s _ _ rfl rfl rfl
  · exact h.finish hrespond s _ _ rfl rfl rfl

theorem placeStored (h : Piecewise R) (hrespond : RespondsWithin R respond) (s : Session κ)
    (client : Option ClientId) (into : Option String) : R s (s.placeStored respond client into).1 := by
  cases client with
  | none => exact h.refl s
  | some c => exact h.placeRef hrespond s c into

theorem put (h : Piecewise R) (hrespond : RespondsWithin R respond) (s : Session κ) (k : κ) (value : NewValue)
    (observer into : Option String) : R s (s.put respond k value observer into).1 := by
  let s₁ := (s.createValue value).2
  let s₂ := (s₁.storeValue respond k (s.createValue value).1 observer).2
  have hstored : R s s₂ := h.after_books (h.storeValue hrespond s₁ k _ observer) rfl rfl rfl
  have hdropped := h.dropHandle s₂ (s.createValue value).1
  exact h.trans (h.trans hstored hdropped) (h.placeStored hrespond _ _ into)

theorem store (h : Piecewise R) (hrespond : RespondsWithin R respond) (s : Session κ) (k : κ) (handle : String)
    (observer into : Option String) : R s (s.store respond k handle observer into).1 := by
  unfold Session.store
  split
  · exact h.refl s
  · exact h.trans (h.storeValue hrespond s k _ observer) (h.placeStored hrespond _ _ into)

theorem get (h : Piecewise R) (hrespond : RespondsWithin R respond) (s : Session κ) (k : κ)
    (into : Option String) : R s (s.get respond k into).1 := by
  unfold Session.get handOver
  dsimp only
  split
  · exact h.finish hrespond s _ _ rfl rfl rfl
  · rename_i id _
    have hfinished := h.finish hrespond s (s.afterReading.addClient id).2 (.get s.surroundings k) rfl rfl rfl
    exact h.trans hfinished (h.placeRef hrespond _ _ into)

theorem reuse (h : Piecewise R) (hrespond : RespondsWithin R respond) (s : Session κ) (k : κ)
    (into : Option String) : R s (s.reuse respond k into).1 := by
  unfold Session.reuse
  dsimp only
  split
  · exact h.finish hrespond s s (.reuse k) rfl rfl rfl
  · rename_i e _
    have hfinished := h.finish hrespond s (s.addHandle e.value) (.reuse k) rfl rfl rfl
    exact h.trans hfinished (h.placeHandle _ _ into)

theorem trim (h : Piecewise R) (hrespond : RespondsWithin R respond) (s : Session κ) (pressure : Pressure) :
    R s (s.trim respond pressure) := by
  unfold Session.trim
  dsimp only
  split
  · exact h.finish hrespond s _ _ rfl rfl rfl
  · exact h.finish hrespond s _ _ rfl rfl rfl

theorem withCache (h : Piecewise R) {go : Session κ → Session κ × Outcome κ} (hgo : R s (go s).1) :
    R s (s.withCache go).1 := by
  unfold Session.withCache
  split
  · exact hgo
  · exact h.refl s

theorem performWith (h : Piecewise R) (hrespond : RespondsWithin R respond) :
    RespondsWithin R (Session.performWith respond) := by
  intro s r
  cases r with
  -- requests of the cache: the books that they need come first, then the operation
  | put k value observer into => exact h.withCache (h.put hrespond s k value observer into)
  | store k handle observer into => exact h.withCache (h.store hrespond s k handle observer into)
  | get k into => exact h.withCache (h.get hrespond s k into)
  | probe k => exact h.withCache (h.finish hrespond s s (.probe k) rfl rfl rfl)
  | reuse k into => exact h.withCache (h.reuse hrespond s k into)
  | removeAll p => exact h.withCache (h.finish hrespond s _ _ rfl rfl rfl)
  | clear => exact h.withCache (h.finish hrespond s _ _ rfl rfl rfl)
  | trim pressure => exact h.withCache (h.trim hrespond s pressure)
  -- references and handles: books, and what dropping a reference leads to
  | copyRef ref into =>
    rw [Session.performWith]
    split
    · exact h.refl s
    · exact h.after_books (h.placeRef hrespond _ _ into) rfl rfl rfl
  | closeRef ref =>
    rw [Session.performWith]
    split
    · exact h.refl s
    · exact h.after_books (h.dropRef hrespond _ _) rfl rfl rfl
  | valueOf ref into =>
    rw [Session.performWith]
    split
    · exact h.refl s
    · exact h.after_books (h.placeHandle (s.addHandle _) _ into) rfl rfl rfl
  | newValue value into => exact h.after_books (h.placeHandle (s.createValue value).2 _ into) rfl rfl rfl
  | copyHandle handle into =>
    rw [Session.performWith]
    split
    · exact h.refl s
    · exact h.after_books (h.placeHandle (s.addHandle _) _ into) rfl rfl rfl
  | closeHandle handle =>
    rw [Session.performWith]
    split
    · exact h.refl s
    · exact h.after_books (h.dropHandle _ _) rfl rfl rfl

/-- However deep requests are nested in each other. -/
theorem performNested (h : Piecewise R) (depth : Nat) : RespondsWithin R (Session.performNested depth) := by
  induction depth with
  | zero => exact h.performWith fun s _ => h.refl s
  | succ depth ih => exact h.performWith ih

theorem perform (h : Piecewise R) (s : Session κ) (r : Request κ) : R s (s.perform r).1 :=
  h.performNested s.reactions.length s r

/-! ## Steps -/

theorem dropCache (h : Piecewise R) (s : Session κ) : R s s.dropCache := by
  unfold Session.dropCache
  split
  · exact h.after_books (h.tearDownIfDeserted { s with present := false }) rfl rfl rfl
  · exact h.refl s

theorem run (h : Piecewise R) (s : Session κ) (step : Step κ) : R s (s.run step).1 := by
  cases step with
  | request r => exact h.perform s r
  | dropCache => exact h.dropCache s
  | closeRefs => exact h.foldl (fun s name => h.perform s (.closeRef name)) _ _
  | closeHandles => exact h.foldl (fun s name => h.perform s (.closeHandle name)) _ _
  | askPolicy k => exact h.withCache (h.books rfl rfl rfl)
  | _ => exact h.books rfl rfl rfl

theorem runAll (h : Piecewise R) (s : Session κ) (steps : List (Step κ)) : R s (s.runAll steps) :=
  h.foldl h.run steps s

end Piecewise

end Session

end RefCache
