import RecordStore.Proofs.Session.ListSession

/-!
Calls on a store as calls on plain lists. What the arguments of a call amount to is the same on
either side: they are refused with the same answer, or there is a work that does to its store what
the call does to the list of its model, and answers what the call answers.
-/
namespace RecordStore.Session

variable {models : Model → Prop}

/-- A work that does to its store what a call does to the list of a model. -/
structure Realizes (m : Model) (w : Work) (call : ListCall) : Prop where
  isCall : IsCall w
  failure : ∀ op : StoreOperation, op.work = w → op.failure = call.failure
  performs : ∀ (nested : Request → Run Answer) (op : StoreOperation), op.work = w → op.model = m →
    ∃ (a : Access) (answer : a.Reply → Answer)
      (expected : List Values → Except StoreError (a.Reply × List Values)),
      a.model = m ∧ perform nested op = performCall op a.perform answer ∧
      (∀ rows, call.perform rows = (expected rows).map fun result => (answer result.1, result.2)) ∧
      ∀ (t : Table) (rows : List Values), t.Holds m.primaryKey? rows →
        Table.Agrees m.primaryKey? (a.attempt t) (expected rows)

/-- What an operation that realizes a call answers and makes of a store. -/
theorem Realizes.transact (hkey : OneKey models) {m : Model} (hm : models m) {w : Work}
    {call : ListCall} (h : Realizes m w call) {op : StoreOperation} (hwork : op.work = w)
    (hmodel : op.model = m) {s : Store} {lists : Lists} (hs : s.Holds models lists)
    {c : Configuration} (hc : c.readOnly = false) (nested : Request → Run Answer) :
    ∃ (α : Type) (body : Transact α) (answer : α → Answer),
      perform nested op = performCall op body answer ∧
      callAnswer op answer (s.transact body).1 = (call.run c (lists m.typeName)).1 ∧
      (s.transact body).2.identifier = s.identifier ∧
      (s.transact body).2.Holds models
        (Function.update lists m.typeName (call.run c (lists m.typeName)).2) := by
  obtain ⟨a, answer, expected, ha, hperform, hcall, hagrees⟩ := h.performs nested op hwork hmodel
  refine ⟨a.Reply, a.perform, answer, hperform, ?_⟩
  subst ha
  have htransact := hs.transact hkey hm (hagrees _ _ (hs.tables a.model hm))
  cases hexpected : expected (lists a.model.typeName) with
  | error e =>
    have hcalled : call.perform (lists a.model.typeName) = .error e := by
      rw [hcall, hexpected]
      rfl
    have hrun : call.run c (lists a.model.typeName) = (call.failure e, lists a.model.typeName) := by
      simp only [ListCall.run, hc, hcalled, Bool.false_eq_true, if_false]
    rw [hexpected] at htransact
    have htransact : s.transact a.perform = (.error e, s) := htransact
    rw [htransact, hrun]
    refine ⟨congrFun (h.failure op hwork) e, rfl, ?_⟩
    show s.Holds models (Function.update lists a.model.typeName (lists a.model.typeName))
    rw [Function.update_eq_self]
    exact hs
  | ok result =>
    have hcalled : call.perform (lists a.model.typeName) = .ok (answer result.1, result.2) := by
      rw [hcall, hexpected]
      rfl
    have hrun : call.run c (lists a.model.typeName) = (answer result.1, result.2) := by
      simp only [ListCall.run, hc, hcalled, Bool.false_eq_true, if_false]
    rw [hexpected] at htransact
    obtain ⟨s', hs', hidentifier, hholds⟩ := htransact
    rw [hs', hrun]
    exact ⟨rfl, hidentifier, hholds⟩

theorem identity_eq {m : Model} {r : Record} {wanted : Values} (h : r.toValues = .ok wanted) :
    ∃ i, m.identity r = .ok i := by
  unfold Model.identity
  rw [h]
  cases m.primaryKey? with
  | none => exact ⟨_, rfl⟩
  | some field => exact ⟨_, rfl⟩

theorem identity_eq_error {m : Model} {r : Record} {e : StoreError} (h : r.toValues = .error e) :
    m.identity r = .error e := by
  unfold Model.identity
  rw [h]

def Amounts (m : Model) (work : Except Answer Work) : Except Answer ListCall → Prop
  | .error a => work = .error a
  | .ok call => ∃ w, work = .ok w ∧ Realizes m w call

theorem realizes_create (m : Model) (values : Values) :
    Realizes m (.create values) (.of (ListStore.create m values) .record .failed) where
  isCall := trivial
  failure op hwork := by
    funext e
    unfold StoreOperation.failure
    rw [hwork]
    rfl
  performs nested op hwork hmodel := by
    refine ⟨.create m values, .record, ListStore.create m values, rfl, ?_, fun _ => rfl,
      fun t rows ht => Access.create_agrees ht values⟩
    rw [perform_create hwork, hmodel]
    rfl

/-- An update realizes that of a plain list, through a copy or through an actor. -/
theorem realizes_update {m : Model} {r : Record} {i : Identity} {wanted : Values}
    (hi : m.identity r = .ok i) (hwanted : r.toValues = .ok wanted)
    (changes : List (String × Data)) (isMember : Bool) :
    Realizes m (.update i changes (if isMember then some r else none))
      (.of (ListStore.update m wanted changes)
        (fun new => if isMember then .member { r with fields := new.fields } none else .record new)
        fun e => if isMember then .member r (some e) else .failed e) where
  isCall := trivial
  failure op hwork := by
    funext e
    unfold StoreOperation.failure
    rw [hwork]
    cases isMember <;> rfl
  performs nested op hwork hmodel := by
    refine ⟨.modify m i (·.setAll changes),
      fun new => if isMember then .member { r with fields := new.fields } none else .record new,
      ListStore.update m wanted changes, rfl, ?_, fun _ => rfl,
      fun t rows ht => Access.update_agrees ht hi hwanted changes⟩
    rw [perform_update hwork, hmodel]
    cases isMember <;> rfl

/-- A deletion realizes that from a plain list. -/
theorem realizes_delete {m : Model} {r : Record} {i : Identity} {wanted : Values}
    (hi : m.identity r = .ok i) (hwanted : r.toValues = .ok wanted) :
    Realizes m (.delete i) (.of (ListStore.delete m wanted) (fun _ => .deleted) .failed) where
  isCall := trivial
  failure op hwork := by
    funext e
    unfold StoreOperation.failure
    rw [hwork]
    rfl
  performs nested op hwork hmodel := by
    refine ⟨.delete m i, fun _ => .deleted, ListStore.delete m wanted, rfl, ?_, fun _ => rfl,
      fun t rows ht => Access.delete_agrees ht hi hwanted⟩
    rw [perform_delete hwork, hmodel]
    rfl

theorem amounts_create (arguments : Values) (m : Model) :
    Amounts m (createWork arguments m) (ListCall.create arguments m) := by
  unfold createWork ListCall.create
  cases argument (m.recordArgument arguments) with
  | error a => rfl
  | ok r =>
    simp only [ok_bind]
    cases r.toValues with
    | error e => rfl
    | ok values => exact ⟨_, rfl, realizes_create m values⟩

/-- The arguments of an update are read for an operation as for a plain list. -/
theorem amounts_update (object changes : Values) (isMember : Bool) (m : Model) :
    Amounts m (updateWork object changes isMember m)
      (ListCall.update object changes isMember m) := by
  unfold updateWork ListCall.update
  cases argument (m.recordArgument object) with
  | error a => rfl
  | ok r =>
    simp only [ok_bind]
    cases hwanted : r.toValues with
    | error e =>
      rw [identity_eq_error hwanted]
      rfl
    | ok wanted =>
      obtain ⟨i, hi⟩ := identity_eq (m := m) hwanted
      rw [hi]
      simp only [Except.mapError, ok_bind]
      cases argument (m.changesArgument changes) with
      | error a => rfl
      | ok changes => exact ⟨_, rfl, realizes_update hi hwanted changes isMember⟩

/-- The argument of a deletion is read for an operation as for a plain list. -/
theorem amounts_delete (object : Values) (m : Model) :
    Amounts m (deleteWork object m) (ListCall.delete object m) := by
  unfold deleteWork ListCall.delete
  cases argument (m.recordArgument object) with
  | error a => rfl
  | ok r =>
    simp only [ok_bind]
    cases hwanted : r.toValues with
    | error e =>
      rw [identity_eq_error hwanted]
      rfl
    | ok wanted =>
      obtain ⟨i, hi⟩ := identity_eq (m := m) hwanted
      rw [hi]
      exact ⟨_, rfl, realizes_delete hi hwanted⟩

end RecordStore.Session
