import RefCache.Proofs.Ownership.Basic
import RefCache.Session.Delivery

/-!
# The books of a session

Clients, copies of references and handles are counted by the session, and everything that is counted
is held somewhere. `Session.Balanced s table held grip` says that the counts of the session are right
for the table of entries `table`, when operations under way hold the copies `held` and the handles
`grip` on top of what has a name:

* an entry has as many clients as there are rows of clients with this entry;
* a client has as many copies as there are names and holders under way;
* a value has as many handles as there are names, entries that carry it and holders under way;
* a value is there as long as it has handles, and its release is seen once, when they are gone;
* an entry has the size of the value that it carries.

Every lemma here is about one change of the books; the table is an argument of its own because a
cache changes it before the session learns of it.
-/

namespace RefCache

universe u

/-- The number of entries that carry a value. -/
def EntryTable.carriers {κ : Type u} (t : EntryTable κ) (v : ValueId) : Nat :=
  t.count fun e => e.value = v

/-- Changing the clients of an entry does not change what it carries. -/
theorem EntryTable.carriers_update {κ : Type u} {t : EntryTable κ} {id : EntryId} {e : Entry κ}
    (he : t.get? id = some e) {change : Entry κ → Entry κ} (hvalue : (change e).value = e.value)
    (v : ValueId) : EntryTable.carriers (t.update id change) v = t.carriers v := by
  have hcount := Register.count_update t id e change (fun e => e.value = v) he
  rw [hvalue] at hcount
  exact Nat.add_right_cancel hcount

/-- An entry that is there carries its value. -/
theorem EntryTable.carriers_pos {κ : Type u} {t : EntryTable κ} {id : EntryId} {e : Entry κ}
    (he : t.get? id = some e) : 0 < t.carriers e.value := by
  have hcount := Register.count_remove t id e (fun e' => e'.value = e.value) he
  rw [decide_eq_true rfl, if_pos rfl] at hcount
  rw [carriers, hcount]
  exact Nat.succ_pos _

/-- The event is the release of a value. -/
def Event.Releases {κ : Type u} (v : ValueId) : Event κ → Bool
  | .released w _ => w = v
  | _ => false

namespace Session

variable {κ : Type u} [Key κ]

/-- The number of clients of an entry. -/
def clientsOf (s : Session κ) (id : EntryId) : Nat :=
  s.clients.count fun c => c.entry = id

/-- The number of copies of a client's reference. -/
def copiesOf (s : Session κ) (c : ClientId) : Nat :=
  s.clients.readout Client.copies c

/-- The number of names that a client's reference is held under. -/
def refsOf (s : Session κ) (c : ClientId) : Nat :=
  rowCount s.refs fun d => d = c

/-- The number of handles to a value. -/
def handlesOf (s : Session κ) (v : ValueId) : Nat :=
  s.values.readout Value.handles v

/-- The number of names that handles to a value are held under. -/
def namesOf (s : Session κ) (v : ValueId) : Nat :=
  rowCount s.handles fun w => w = v

theorem refsOf_pos {s : Session κ} {name : String} {c : ClientId} (h : s.refs[name]? = some c) :
    0 < s.refsOf c := by
  rw [refsOf, rowCount_erase s.refs name c _ h, decide_eq_true rfl, if_pos rfl]
  exact Nat.succ_pos _

theorem namesOf_pos {s : Session κ} {name : String} {v : ValueId} (h : s.handles[name]? = some v) :
    0 < s.namesOf v := by
  rw [namesOf, rowCount_erase s.handles name v _ h, decide_eq_true rfl, if_pos rfl]
  exact Nat.succ_pos _

/-- What a value was created as. -/
def creation? (s : Session κ) (v : ValueId) : Option NewValue :=
  s.created.reverse[v]?

/-- How often the release of a value has been seen. -/
def releases (s : Session κ) (v : ValueId) : Nat :=
  s.events.countP (Event.Releases v)

/-- The value is gone, and its release was to be reported. -/
def ReleaseDue (s : Session κ) (v : ValueId) : Bool :=
  (s.values.get? v).isNone && (s.creation? v).any NewValue.reported

/-- The books are right. -/
structure Balanced (s : Session κ) (table : EntryTable κ) (held : List ClientId)
    (grip : List ValueId) : Prop where
  clients_eq : ∀ id, table.clients id = s.clientsOf id
  copies_eq : ∀ c, s.copiesOf c = s.refsOf c + held.count c
  copies_pos : ∀ c client, s.clients.get? c = some client → 0 < client.copies
  handles_eq : ∀ v, s.handlesOf v = s.namesOf v + table.carriers v + grip.count v
  handles_pos : ∀ v value, s.values.get? v = some value → 0 < value.handles
  created_length : s.created.length = s.values.next
  created_as : ∀ v value, s.values.get? v = some value →
    (s.creation? v).map NewValue.reported = some value.reported
  releases_eq : ∀ v, s.releases v = if s.ReleaseDue v then 1 else 0
  measured : ∀ id e, table.get? id = some e → ∀ value, s.values.get? e.value = some value →
    value.size = e.size

namespace Balanced

variable {s s' : Session κ} {table table' : EntryTable κ} {held : List ClientId}
  {grip : List ValueId} {v : ValueId}

/-! ## Changes that do not concern the books -/

theorem congr (h : s.Balanced table held grip) (hclients : s'.clients = s.clients)
    (hrefs : s'.refs = s.refs) (hvalues : s'.values = s.values) (hhandles : s'.handles = s.handles)
    (hcreated : s'.created = s.created) (hreleases : ∀ v, s'.releases v = s.releases v) :
    s'.Balanced table held grip where
  clients_eq := by
    intro id
    rw [clientsOf, hclients]
    exact h.clients_eq id
  copies_eq := by
    intro c
    rw [copiesOf, refsOf, hclients, hrefs]
    exact h.copies_eq c
  copies_pos := by
    rw [hclients]
    exact h.copies_pos
  handles_eq := by
    intro v
    rw [handlesOf, namesOf, hvalues, hhandles]
    exact h.handles_eq v
  handles_pos := by
    rw [hvalues]
    exact h.handles_pos
  created_length := by
    rw [hcreated, hvalues]
    exact h.created_length
  created_as := by
    unfold creation?
    rw [hvalues, hcreated]
    exact h.created_as
  releases_eq := by
    intro v
    rw [hreleases, ReleaseDue, creation?, hvalues, hcreated]
    exact h.releases_eq v
  measured := by
    rw [hvalues]
    exact h.measured

theorem afterReading (h : s.Balanced table held grip) : s.afterReading.Balanced table held grip :=
  h.congr rfl rfl rfl rfl rfl fun _ => rfl

/-- An event that is no release does not concern the books. -/
theorem record (h : s.Balanced table held grip) {e : Event κ} (he : ∀ v, e.Releases v = false) :
    (s.record e).Balanced table held grip := by
  refine h.congr rfl rfl rfl rfl rfl fun v => ?_
  show (e :: s.events).countP (Event.Releases v) = _
  rw [List.countP_cons, he v]
  rfl

/-- Marks on entries do not concern the books. -/
theorem ages (h : s.Balanced table held grip) (hages : table.Ages table') :
    s.Balanced table' held grip :=
  { h with
    clients_eq := by
      intro id
      rw [hages.clients_eq]
      exact h.clients_eq id
    handles_eq := by
      intro v
      -- what an entry carries is no mark
      have hcarriers : table'.carriers v = table.carriers v :=
        Register.count_congr table' table Entry.withoutMarks (fun e => e.value = v)
          hages.withoutMarks_eq
      rw [hcarriers]
      exact h.handles_eq v
    measured := by
      intro id e' he' value hvalue
      obtain ⟨e, he, hage⟩ := hages.earlier id e' he'
      obtain ⟨_, hsame, hsize, _⟩ := Entry.eq_of_withoutMarks hage.same
      rw [hsame] at hvalue
      rw [hsize]
      exact h.measured id e he value hvalue }

/-! ## Handles to values -/

/-- The handles of a value that is there change together with what is held under way. -/
theorem rehandle (h : s.Balanced table held grip) {grip' : List ValueId} {v : ValueId}
    {value : Value} (hvalue : s.values.get? v = some value) (change : Value → Value)
    (hreported : (change value).reported = value.reported) (hsize : (change value).size = value.size)
    (hpos : 0 < (change value).handles)
    (hcount : (change value).handles + grip.count v = value.handles + grip'.count v)
    (hothers : ∀ w, w ≠ v → grip'.count w = grip.count w) :
    { s with values := s.values.update v change }.Balanced table held grip' := by
  have hget : ∀ w, (s.values.update v change).get? w
      = if v = w then some (change value) else s.values.get? w := by
    intro w
    rw [Register.get?_update, hvalue]
    rfl
  refine { h with
    handles_eq := ?_, handles_pos := ?_, created_length := ?_, created_as := ?_, releases_eq := ?_,
    measured := ?_ }
  · -- handles_eq
    intro w
    show (s.values.update v change).readout Value.handles w = s.namesOf w + _ + _
    -- only the value in question changes its count
    have hold := h.handles_eq w
    rw [Register.readout_update _ hvalue]
    by_cases hw : v = w
    · subst hw
      rw [handlesOf, Register.readout_of_some _ _ hvalue] at hold
      rw [if_pos rfl]
      omega
    · rw [if_neg hw, hothers w (Ne.symm hw)]
      exact hold
  · -- handles_pos
    intro w value' hw
    change (s.values.update v change).get? w = some value' at hw
    rw [hget] at hw
    split at hw
    · cases hw
      exact hpos
    · exact h.handles_pos w value' hw
  · -- created_length and created_as: a change of handles creates no value
    show s.created.length = (s.values.update v change).next
    rw [Register.next_update]
    exact h.created_length
  · intro w value' hw
    change (s.values.update v change).get? w = some value' at hw
    rw [hget] at hw
    split at hw
    · rename_i hvw
      cases hw
      rw [hreported]
      exact hvw ▸ h.created_as v value hvalue
    · exact h.created_as w value' hw
  · intro w
    -- the value is there before and after
    have hdue : { s with values := s.values.update v change }.ReleaseDue w = s.ReleaseDue w := by
      rw [ReleaseDue, ReleaseDue, hget]
      split
      · rename_i hvw
        rw [← hvw, hvalue]
        rfl
      · rfl
    rw [hdue]
    exact h.releases_eq w
  · -- measured
    intro id e he value' hw
    change (s.values.update v change).get? e.value = some value' at hw
    rw [hget] at hw
    split at hw
    · rename_i hvw
      cases hw
      rw [hsize]
      exact h.measured id e he value (hvw ▸ hvalue)
    · exact h.measured id e he value' hw

/-- Somebody who holds a value or carries it finds it there. -/
theorem exists_value (h : s.Balanced table held grip) {v : ValueId}
    (hpos : 0 < s.namesOf v + table.carriers v + grip.count v) :
    ∃ value, s.values.get? v = some value := by
  cases hget : s.values.get? v with
  | some value => exact ⟨value, rfl⟩
  | none =>
    rw [← h.handles_eq v, handlesOf, Register.readout_of_none _ _ hget] at hpos
    exact nomatch hpos

/-- And its release has not been seen. -/
theorem unreleased_of_pos (h : s.Balanced table held grip) {v : ValueId}
    (hpos : 0 < s.namesOf v + table.carriers v + grip.count v) :
    ∃ value, s.values.get? v = some value ∧ s.releases v = 0 := by
  obtain ⟨value, hvalue⟩ := h.exists_value hpos
  refine ⟨value, hvalue, ?_⟩
  rw [h.releases_eq, ReleaseDue, hvalue]
  rfl

/-- The value of an entry is there, and its release has not been seen. -/
theorem unreleased (h : s.Balanced table held grip) {id : EntryId} {e : Entry κ}
    (he : table.get? id = some e) :
    ∃ value, s.values.get? e.value = some value ∧ s.releases e.value = 0 := by
  have hcarried := EntryTable.carriers_pos he
  exact h.unreleased_of_pos (by omega)

/-- What nobody holds or carries is gone, and its release has been seen if it was to be. -/
theorem released_of_zero (h : s.Balanced table held grip) {v : ValueId}
    (hzero : s.namesOf v + table.carriers v + grip.count v = 0) : s.values.get? v = none ∧
      s.releases v = if (s.creation? v).any NewValue.reported then 1 else 0 := by
  have hnone : s.values.get? v = none := by
    cases hget : s.values.get? v with
    | none => rfl
    | some value =>
      have hpos := h.handles_pos v value hget
      rw [← h.handles_eq v, handlesOf, Register.readout_of_some _ _ hget] at hzero
      omega
  refine ⟨hnone, ?_⟩
  rw [h.releases_eq, ReleaseDue, hnone]
  rfl

theorem addHandle (h : s.Balanced table held grip) {v : ValueId}
    (hpos : 0 < s.namesOf v + table.carriers v + grip.count v) :
    (s.addHandle v).Balanced table held (v :: grip) := by
  obtain ⟨value, hvalue⟩ := h.exists_value hpos
  refine h.rehandle hvalue (fun value => { value with handles := value.handles + 1 }) rfl rfl
    (Nat.succ_pos _) ?_ fun w hw => List.count_cons_of_ne (Ne.symm hw)
  rw [List.count_cons_self]
  dsimp only
  omega

/-- Once a value is gone its release is due, if it is to be reported. -/
private theorem releaseDue_remove (h : s.Balanced table held (v :: grip)) {value : Value}
    (hvalue : s.values.get? v = some value) (hvalues : s'.values = s.values.remove v)
    (hcreated : s'.created = s.created) (w : ValueId) :
    s'.ReleaseDue w = if v = w then value.reported else s.ReleaseDue w := by
  rw [ReleaseDue, hvalues, Register.get?_remove, creation?, hcreated]
  split
  · rename_i hvw
    have hcreation := h.created_as v value hvalue
    rw [creation?, Option.map_eq_some_iff] at hcreation
    obtain ⟨nv, hnv, hreported⟩ := hcreation
    rw [← hvw, hnv, Option.isNone_none, Bool.true_and, Option.any_some, hreported]
  · rfl

private theorem releases_remove {value : Value} (hevents : s'.events
      = if value.reported then .released v value.tag :: s.events else s.events) (w : ValueId) :
    s'.releases w = s.releases w + if v = w ∧ value.reported then 1 else 0 := by
  rw [releases, hevents]
  split
  · rename_i hreported
    rw [List.countP_cons]
    simp only [Event.Releases, hreported, and_true, decide_eq_true_eq]
    rfl
  · rename_i hreported
    rw [if_neg fun hand => hreported hand.2]
    rfl

/-- The last handle takes the value with it, and its release is seen if it is to be reported. -/
private theorem dropLastHandle (h : s.Balanced table held (v :: grip)) {value : Value}
    (hvalue : s.values.get? v = some value) (hlast : value.handles ≤ 1) (hevents : s'.events
      = if value.reported then .released v value.tag :: s.events else s.events)
    (hvalues : s'.values = s.values.remove v) (hclients : s'.clients = s.clients)
    (hrefs : s'.refs = s.refs) (hhandles : s'.handles = s.handles) (hcreated : s'.created = s.created) :
    s'.Balanced table held grip where
  -- clients and their copies have nothing to do with values
  clients_eq := by
    intro id
    rw [clientsOf, hclients]
    exact h.clients_eq id
  copies_eq := by
    intro c
    rw [copiesOf, refsOf, hclients, hrefs]
    exact h.copies_eq c
  copies_pos := by
    rw [hclients]
    exact h.copies_pos
  -- one handle less is held under way, and one less is counted
  handles_eq := by
    intro w
    have hold := h.handles_eq w
    rw [handlesOf, namesOf, hvalues, hhandles, Register.readout_remove]
    split
    · -- the one handle counted was the one that is dropped, so nobody else holds or carries the value
      rename_i hvw
      subst hvw
      rw [handlesOf, Register.readout_of_some _ _ hvalue, List.count_cons_self] at hold
      show 0 = s.namesOf v + _ + _
      omega
    · rename_i hvw
      rw [List.count_cons_of_ne hvw] at hold
      exact hold
  -- the values that are left have the handles they had
  handles_pos := by
    intro w value' hw
    rw [hvalues, Register.get?_remove] at hw
    split at hw
    · exact nomatch hw
    · exact h.handles_pos w value' hw
  -- a value that is gone still counts as created
  created_length := by
    rw [hcreated, hvalues]
    exact h.created_length
  created_as := by
    intro w value' hw
    rw [hvalues, Register.get?_remove] at hw
    rw [creation?, hcreated]
    split at hw
    · exact nomatch hw
    · exact h.created_as w value' hw
  -- the release is due from now on, and has just been seen if it is to be reported
  releases_eq := by
    intro w
    have hold := h.releases_eq w
    rw [releases_remove hevents, h.releaseDue_remove hvalue hvalues hcreated]
    by_cases hvw : v = w
    · -- as long as the value was there, its release had not been seen
      subst hvw
      have hnone : s.ReleaseDue v = false := by
        rw [ReleaseDue, hvalue]
        rfl
      rw [hnone] at hold
      rw [hold]
      simp
    · simp only [hvw, false_and, if_false, Nat.add_zero]
      exact hold
  -- what is still carried is still measured
  measured := by
    intro id e he value' hw
    rw [hvalues, Register.get?_remove] at hw
    split at hw
    · exact nomatch hw
    · exact h.measured id e he value' hw

theorem dropHandle (h : s.Balanced table held (v :: grip)) :
    (s.dropHandle v).Balanced table held grip := by
  obtain ⟨value, hvalue⟩ := h.exists_value (v := v) (by rw [List.count_cons_self]; omega)
  unfold Session.dropHandle
  rw [hvalue]
  dsimp only
  split
  · -- the last handle: the value goes, seen or unseen
    rename_i hlast
    split
    · rename_i hreported
      exact h.dropLastHandle hvalue hlast (by rw [if_pos hreported]; rfl) rfl rfl rfl rfl rfl
    · rename_i hreported
      exact h.dropLastHandle hvalue hlast (by rw [if_neg hreported]) rfl rfl rfl rfl rfl
  · -- others are left: the value stays, with one handle less
    rename_i hmore
    refine h.rehandle hvalue (fun value => { value with handles := value.handles - 1 }) rfl rfl
      (by dsimp only; omega) ?_ fun w hw => (List.count_cons_of_ne (Ne.symm hw)).symm
    rw [List.count_cons_self]
    dsimp only
    omega

/-- A value is created under the next number. -/
theorem creation?_createValue (h : s.Balanced table held grip) (nv : NewValue) (w : ValueId) :
    (s.createValue nv).2.creation? w = if s.values.next = w then some nv else s.creation? w := by
  show (nv :: s.created).reverse[w]? = if _ then _ else s.created.reverse[w]?
  -- the journal has one line for each number given out
  have hlength : s.created.reverse.length = s.values.next := by
    rw [List.length_reverse, h.created_length]
  rw [List.reverse_cons, List.getElem?_append, hlength]
  by_cases hw : s.values.next = w
  · subst hw
    simp
  · rw [if_neg hw]
    split
    · rfl
    · rename_i hlt
      have hnone : s.created.reverse[w]? = none := List.getElem?_eq_none (by omega)
      rw [hnone, List.getElem?_eq_none]
      simp only [List.length_singleton]
      omega

private theorem get?_createValue (s : Session κ) (nv : NewValue) (w : ValueId) :
    (s.createValue nv).2.values.get? w
      = if s.values.next = w then some { tag := nv.tag, size := nv.size, reported := nv.reported }
        else s.values.get? w :=
  Register.get?_add _ _ w

/-- Creating a value makes no release due. -/
private theorem releaseDue_createValue (h : s.Balanced table held grip) (nv : NewValue)
    (w : ValueId) : (s.createValue nv).2.ReleaseDue w = s.ReleaseDue w := by
  rw [ReleaseDue, ReleaseDue, get?_createValue, h.creation?_createValue]
  split
  · -- the number was not given out before
    rename_i hnext
    have hnone : s.creation? w = none := by
      refine List.getElem?_eq_none ?_
      rw [List.length_reverse, h.created_length]
      exact Nat.le_of_eq hnext
    rw [hnone]
    simp
  · rfl

/-- A new value has one handle, which is held by the operation that created it. -/
theorem createValue (h : s.Balanced table held grip) (nv : NewValue) :
    (s.createValue nv).2.Balanced table held ((s.createValue nv).1 :: grip) :=
  { h with
    handles_eq := by
      intro w
      have hold := h.handles_eq w
      show (s.values.add _).readout Value.handles w = s.namesOf w + _ + List.count w (_ :: grip)
      rw [Register.readout_add]
      split
      · rename_i hw
        subst hw
        -- nobody held or carried the number before
        rw [handlesOf, Register.readout_of_none _ _ s.values.get?_next] at hold
        show 1 = _ + _ + List.count _ (s.values.next :: grip)
        rw [List.count_cons_self]
        omega
      · rename_i hw
        show _ = _ + _ + List.count w (s.values.next :: grip)
        rw [List.count_cons_of_ne hw]
        exact hold
    handles_pos := by
      intro w value hw
      rw [get?_createValue] at hw
      split at hw
      · cases hw
        exact Nat.one_pos
      · exact h.handles_pos w value hw
    created_length := congrArg (· + 1) h.created_length
    created_as := by
      intro w value hw
      rw [get?_createValue] at hw
      rw [h.creation?_createValue]
      split at hw
      · rename_i hnext
        cases hw
        rw [if_pos hnext]
        rfl
      · rename_i hnext
        rw [if_neg hnext]
        exact h.created_as w value hw
    releases_eq := by
      intro w
      rw [h.releaseDue_createValue]
      exact h.releases_eq w
    measured := by
      intro id e he value hw
      rw [get?_createValue] at hw
      split at hw
      · -- no entry carries the number yet
        rename_i hnext
        have hcarried := EntryTable.carriers_pos he
        obtain ⟨value', hvalue'⟩ := h.exists_value (v := e.value) (by omega)
        have hlt := s.values.lt_next_of_get? hvalue'
        omega
      · exact h.measured id e he value hw }

/-! ## Names of handles -/

/-- A name that loses its handle leaves it to the operation. -/
theorem unnameHandle (h : s.Balanced table held grip) {name : String}
    (hname : s.handles[name]? = some v) :
    { s with handles := s.handles.erase name }.Balanced table held (v :: grip) := by
  -- the names hold one handle less, and the operation one more
  refine { h with handles_eq := ?_ }
  intro w
  have hold := h.handles_eq w
  show s.handlesOf w = rowCount (s.handles.erase name) (fun u => u = w) + _ + _
  rw [namesOf, rowCount_erase s.handles name v _ hname] at hold
  rw [List.count_cons]
  by_cases hvw : v = w
  · subst hvw
    simp only [decide_true, if_true, beq_self_eq_true] at hold ⊢
    omega
  · simp only [hvw, decide_false, Bool.false_eq_true, if_false, beq_iff_eq, Nat.add_zero] at hold ⊢
    exact hold

/-- The operation leaves a handle to a name; it gets the former handle of the name. -/
theorem nameHandle (h : s.Balanced table held (v :: grip)) (name : String) :
    { s with handles := s.handles.insert name v }.Balanced table held
      (s.handles[name]?.toList ++ grip) := by
  refine { h with handles_eq := ?_ }
  intro w
  have hold := h.handles_eq w
  show s.handlesOf w = rowCount (s.handles.insert name v) (fun u => u = w) + _ + _
  rw [rowCount_insert, List.count_append, Nat.add_right_comm]
  -- the name counts for its former handle until it is overwritten
  have hformer : s.namesOf w = rowCount (s.handles.erase name) (fun u => u = w)
      + s.handles[name]?.toList.count w :=
    rowCount_eq_erase_add s.handles name _
  rw [hformer, List.count_cons] at hold
  simp only [beq_iff_eq, decide_eq_true_eq] at hold ⊢
  omega

theorem placeHandle (h : s.Balanced table held (v :: grip)) (into : Option String) :
    (s.placeHandle v into).Balanced table held grip := by
  -- a value that is not named gives its handle back, and a named one that of the value named before
  cases into with
  | none => exact h.dropHandle
  | some name =>
    have hname := h.nameHandle name
    unfold Session.placeHandle
    dsimp only
    cases hformer : s.handles[name]? with
    | none =>
      rw [hformer] at hname
      exact hname
    | some u =>
      rw [hformer] at hname
      exact hname.dropHandle

/-! ## Entries that carry values -/

/-- A new entry takes over a handle of the operation. -/
theorem addEntry {e : Entry κ} (h : s.Balanced table held (e.value :: grip)) (hclients : e.clients = 0)
    (hsize : ∀ value, s.values.get? e.value = some value → value.size = e.size) :
    s.Balanced (table.add e) held grip := by
  refine { h with clients_eq := ?_, handles_eq := ?_, measured := ?_ }
  · -- clients_eq
    intro id
    have hold := h.clients_eq id
    rw [EntryTable.clients, Register.readout_add]
    split
    · -- the number was not in use, so no client knows it
      rename_i hid
      rw [EntryTable.clients, ← hid, Register.readout_of_none _ _ table.get?_next] at hold
      rw [hclients, ← hid]
      exact hold
    · exact hold
  · -- handles_eq: the handle that the operation held is now the one that the new entry carries
    intro w
    have hold := h.handles_eq w
    rw [List.count_cons] at hold
    rw [EntryTable.carriers, Register.count_add]
    simp only [beq_iff_eq, decide_eq_true_eq] at hold ⊢
    rw [hold, EntryTable.carriers]
    omega
  · -- measured
    intro id e' he'
    rw [Register.get?_add] at he'
    split at he'
    · rw [← Option.some.inj he']
      exact hsize
    · exact h.measured id e' he'

/-- An entry without clients leaves the table, and leaves its handle to the operation. -/
theorem removeEntry (h : s.Balanced table held grip) {id : EntryId} {e : Entry κ}
    (he : table.get? id = some e) (hclients : e.clients = 0) :
    s.Balanced (table.remove id) held (e.value :: grip) := by
  refine { h with clients_eq := ?_, handles_eq := ?_, measured := ?_ }
  · -- clients_eq: an entry that is gone has no clients, and this one had none before
    intro j
    have hold := h.clients_eq j
    rw [EntryTable.clients, Register.readout_remove]
    split
    · rename_i hid
      rw [← hid, EntryTable.clients_of_get? he, hclients] at hold
      rw [← hid]
      exact hold
    · exact hold
  · -- handles_eq: one carrier less, and one handle more under way
    intro w
    have hold := h.handles_eq w
    rw [EntryTable.carriers, Register.count_remove table id e _ he] at hold
    rw [List.count_cons, EntryTable.carriers]
    simp only [beq_iff_eq, decide_eq_true_eq] at hold ⊢
    omega
  · -- measured
    intro j e' he'
    rw [Register.get?_remove] at he'
    split at he'
    · cases he'
    · exact h.measured j e' he'

/-- Clients do not show in the size of an entry. -/
theorem measured_update (h : s.Balanced table held grip) (id : EntryId) {change : Entry κ → Entry κ}
    (hvalue : ∀ e, (change e).value = e.value) (hsize : ∀ e, (change e).size = e.size) :
    ∀ j e', Register.get? (table.update id change) j = some e' →
      ∀ value, s.values.get? e'.value = some value → value.size = e'.size := by
  intro j e' he' value hw
  rw [Register.get?_update] at he'
  split at he'
  · obtain ⟨e, he, rfl⟩ := Option.map_eq_some_iff.1 he'
    rw [hvalue] at hw
    rw [hsize]
    exact h.measured id e he value hw
  · exact h.measured j e' he' value hw

/-! ## Clients and their references -/

/-- The copies of a reference change together with what is held under way. -/
theorem recopy (h : s.Balanced table held grip) {held' : List ClientId} {c : ClientId}
    {client : Client} (hclient : s.clients.get? c = some client) (change : Client → Client)
    (hentry : (change client).entry = client.entry) (hpos : 0 < (change client).copies)
    (hcount : (change client).copies + held.count c = client.copies + held'.count c)
    (hothers : ∀ d, d ≠ c → held'.count d = held.count d) :
    { s with clients := s.clients.update c change }.Balanced table held' grip := by
  refine { h with clients_eq := ?_, copies_eq := ?_, copies_pos := ?_ }
  · -- clients_eq: the client stays with its entry
    intro id
    have hsame := Register.count_update s.clients c client change (fun c => c.entry = id) hclient
    rw [hentry] at hsame
    rw [h.clients_eq id]
    exact (Nat.add_right_cancel hsame).symm
  · -- copies_eq
    intro d
    show (s.clients.update c change).readout Client.copies d = s.refsOf d + _
    have hold := h.copies_eq d
    rw [Register.readout_update _ hclient]
    by_cases hd : c = d
    · subst hd
      rw [copiesOf, Register.readout_of_some _ _ hclient] at hold
      rw [if_pos rfl]
      omega
    · rw [if_neg hd, hothers d (Ne.symm hd)]
      exact hold
  · -- copies_pos
    intro d client' hd
    change (s.clients.update c change).get? d = some client' at hd
    rw [Register.get?_update, hclient] at hd
    split at hd
    · cases hd
      exact hpos
    · exact h.copies_pos d client' hd

/-- A client that is held, under a name or by an operation, is there, and so is its entry. -/
theorem exists_client (h : s.Balanced table held grip) {c : ClientId}
    (hpos : 0 < s.refsOf c + held.count c) :
    ∃ client e, s.clients.get? c = some client ∧ table.get? client.entry = some e ∧
      0 < e.clients := by
  -- who is held counts copies, so the client is there
  cases hget : s.clients.get? c with
  | none =>
    rw [← h.copies_eq c, copiesOf, Register.readout_of_none _ _ hget] at hpos
    exact absurd hpos (Nat.lt_irrefl 0)
  | some client =>
    -- the client itself counts among those of its entry
    have hcount := Register.count_remove s.clients c client (fun d => d.entry = client.entry) hget
    rw [decide_eq_true rfl, if_pos rfl] at hcount
    have hclients := h.clients_eq client.entry
    rw [clientsOf, hcount] at hclients
    cases he : table.get? client.entry with
    | none =>
      rw [EntryTable.clients, Register.readout_of_none _ _ he] at hclients
      exact absurd hclients.symm (Nat.succ_ne_zero _)
    | some e =>
      rw [EntryTable.clients_of_get? he] at hclients
      exact ⟨client, e, rfl, he, by omega⟩

/-- An entry gets a client, whose one copy is held by the operation. -/
theorem addClient (h : s.Balanced table held grip) {id : EntryId} {e : Entry κ}
    (he : table.get? id = some e) :
    (s.addClient id).2.Balanced (table.update id Entry.addClient) (s.clients.next :: held) grip := by
  refine { h with
    clients_eq := ?_, copies_eq := ?_, copies_pos := ?_, handles_eq := ?_,
    measured := h.measured_update id (fun _ => rfl) fun _ => rfl }
  · -- clients_eq: the entry counts its new client
    intro j
    have hold := h.clients_eq j
    show Register.readout _ _ _ = (s.clients.add { entry := id }).count _
    rw [Register.readout_update _ he, Register.count_add]
    by_cases hj : id = j
    · subst hj
      rw [EntryTable.clients_of_get? he] at hold
      rw [if_pos rfl, decide_eq_true rfl, if_pos rfl]
      exact congrArg (· + 1) hold
    · rw [if_neg hj, decide_eq_false hj]
      exact hold
  · -- copies_eq
    intro c
    have hold := h.copies_eq c
    show (s.clients.add { entry := id }).readout Client.copies c = s.refsOf c + _
    rw [Register.readout_add]
    split
    · -- the new client has one copy, which the operation holds
      rename_i hc
      subst hc
      rw [copiesOf, Register.readout_of_none _ _ s.clients.get?_next] at hold
      rw [List.count_cons_self]
      dsimp only
      omega
    · rename_i hc
      rw [List.count_cons_of_ne hc]
      exact hold
  · -- copies_pos
    intro c client hc
    change (s.clients.add { entry := id }).get? c = some client at hc
    rw [Register.get?_add] at hc
    split at hc
    · cases hc
      exact Nat.one_pos
    · exact h.copies_pos c client hc
  · -- handles_eq: a client is no matter of what entries carry
    intro v
    rw [EntryTable.carriers_update he rfl]
    exact h.handles_eq v

/-- The last copy of a reference takes the client with it. -/
theorem dropLastCopy {c : ClientId} (h : s.Balanced table (c :: held) grip) {client : Client}
    {e : Entry κ} (hclient : s.clients.get? c = some client) (hlast : client.copies ≤ 1)
    (he : table.get? client.entry = some e) :
    { s with clients := s.clients.remove c }.Balanced
      (table.update client.entry Entry.dropClient) held grip := by
  -- the one copy counted is the one that is dropped, so no name holds another
  have hcopies := h.copies_eq c
  rw [copiesOf, Register.readout_of_some _ _ hclient, List.count_cons_self] at hcopies
  refine { h with
    clients_eq := ?_, copies_eq := ?_, copies_pos := ?_, handles_eq := ?_,
    measured := h.measured_update client.entry (fun _ => rfl) fun _ => rfl }
  · -- clients_eq: the entry counts one client less, and so do the clients
    intro j
    have hold := h.clients_eq j
    rw [clientsOf, Register.count_remove s.clients c client _ hclient] at hold
    show Register.readout _ _ _ = (s.clients.remove c).count _
    rw [Register.readout_update _ he]
    by_cases hj : client.entry = j
    · rw [decide_eq_true hj, if_pos rfl, ← hj, EntryTable.clients_of_get? he] at hold
      rw [if_pos hj, ← hj]
      show e.clients - 1 = _
      omega
    · rw [decide_eq_false hj] at hold
      rw [if_neg hj]
      exact hold
  · -- copies_eq
    intro d
    have hold := h.copies_eq d
    show (s.clients.remove c).readout Client.copies d = s.refsOf d + _
    rw [Register.readout_remove]
    split
    · rename_i hd
      rw [← hd]
      omega
    · rename_i hd
      rw [List.count_cons_of_ne hd] at hold
      exact hold
  · -- copies_pos
    intro d client' hd
    change (s.clients.remove c).get? d = some client' at hd
    rw [Register.get?_remove] at hd
    split at hd
    · exact nomatch hd
    · exact h.copies_pos d client' hd
  · -- handles_eq
    intro v
    rw [EntryTable.carriers_update he rfl]
    exact h.handles_eq v

/-! ## Names of references -/

/-- A name that loses its reference leaves it to the operation. -/
theorem unnameRef (h : s.Balanced table held grip) {name : String} {c : ClientId}
    (hname : s.refs[name]? = some c) :
    { s with refs := s.refs.erase name }.Balanced table (c :: held) grip := by
  refine { h with copies_eq := ?_ }
  intro d
  have hold := h.copies_eq d
  show s.copiesOf d = rowCount (s.refs.erase name) (fun u => u = d) + _
  rw [refsOf, rowCount_erase s.refs name c _ hname] at hold
  rw [List.count_cons]
  simp only [beq_iff_eq, decide_eq_true_eq] at hold ⊢
  omega

/-- The operation leaves a reference to a name; it gets the former reference of the name. -/
theorem nameRef {c : ClientId} (h : s.Balanced table (c :: held) grip) (name : String) :
    { s with refs := s.refs.insert name c }.Balanced table (s.refs[name]?.toList ++ held) grip := by
  refine { h with copies_eq := ?_ }
  intro d
  have hold := h.copies_eq d
  show s.copiesOf d = rowCount (s.refs.insert name c) (fun u => u = d) + _
  have hformer : s.refsOf d = rowCount (s.refs.erase name) (fun u => u = d)
      + s.refs[name]?.toList.count d :=
    rowCount_eq_erase_add s.refs name _
  rw [hformer, List.count_cons] at hold
  rw [rowCount_insert, List.count_append]
  simp only [beq_iff_eq, decide_eq_true_eq] at hold ⊢
  omega

end Balanced

end Session

end RefCache
