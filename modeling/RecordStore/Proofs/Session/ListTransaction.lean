import RecordStore.Proofs.Session.Complete
import RecordStore.Proofs.Session.Realization

/-!
Transactions on plain lists. A call inside a transaction does to what the transaction shows what it
does to the list of its model, and a failure of it changes neither; so all steps together end alike,
answer alike and leave the same lists. The copies that a transaction makes of tables cannot be told
from the tables.
-/
namespace RecordStore.Session

variable {models : Model → Prop} {m : Model} {r : Record} {t : Transaction} {lists : Lists}
  {nested : Request → Run Answer}
  {perform : List Values → Except StoreError (Answer × List Values)}

/-- A transaction body that does to all that is shown what a call does to the list of a model. -/
def Follows (models : Model → Prop) (m : Model) (body : Transact Answer)
    (perform : List Values → Except StoreError (Answer × List Values)) : Prop :=
  ∀ (t : Transaction) (lists : Lists), Shows models t.writable lists →
    ∃ t', outcome body t = ((perform (lists m.typeName)).map Prod.fst, t') ∧
      t.Reaches t' t'.writable ∧
      Shows models t'.writable (lists.after m.typeName (perform (lists m.typeName)))

theorem follows_error (e : StoreError) (body : Transact Answer)
    (hbody : ∀ t, outcome body t = (.error e, t)) : Follows models m body fun _ => .error e :=
  fun t _ h => ⟨t, hbody t, .refl t, h⟩

/-- An access whose answer is shown. -/
theorem follows_access (hkey : OneKey models) {a : Access} (ha : models a.model)
    (answer : a.Reply → Answer)
    {expected : List Values → Except StoreError (a.Reply × List Values)}
    (hagrees : ∀ (t : Table) (rows : List Values), t.Holds a.model.primaryKey? rows →
      Table.Agrees a.model.primaryKey? (a.attempt t) (expected rows)) :
    Follows models a.model (do return answer (← a.perform))
      (ListCall.answering answer expected) := by
  intro t lists h
  obtain ⟨t', hrun, hreaches⟩ := outcome_perform a t
  obtain ⟨hreply, hshows⟩ := h.onView hkey ha (hagrees _ _ (h.tables a.model ha))
  have hreached : t.Reaches t' t'.writable := hreaches.view ▸ hreaches
  refine ⟨t', ?_, hreached, ?_⟩
  · rw [Outcome.bind_eq, hrun, hreply]
    unfold ListCall.answering
    cases expected (lists a.model.typeName) <;> rfl
  · rw [hreaches.view]
    unfold ListCall.answering
    unfold Access.typeName at hshows
    cases hexpected : expected (lists a.model.typeName) <;> rw [hexpected] at hshows <;>
      exact hshows

/-- A body that first finds out what stands for a record in its table. -/
theorem follows_identity {next : Identity → Transact Answer}
    {expected : Values → List Values → Except StoreError (Answer × List Values)}
    (hnext : ∀ i wanted, m.identity r = .ok i → r.toValues = .ok wanted →
      Follows models m (next i) (expected wanted)) :
    Follows models m (do next (← m.identity r))
      (fun rows => do expected (← r.toValues) rows) := by
  cases hwanted : r.toValues with
  | error e =>
    refine follows_error e _ fun t => ?_
    rw [Outcome.bind_eq, Outcome.lift_eq, identity_eq_error hwanted]
  | ok wanted =>
    obtain ⟨i, hi⟩ := identity_eq (m := m) hwanted
    intro t lists h
    obtain ⟨t', hrun, hleft⟩ := hnext i wanted hi hwanted t lists h
    refine ⟨t', ?_, hleft⟩
    rw [Outcome.bind_eq, Outcome.lift_eq, hi]
    exact hrun

theorem follows_add (hkey : OneKey models) (hm : models m) (r : Record) :
    Follows models m (do
        Transact.add m r
        return .added)
      (fun rows => do
        ListCall.answering (fun _ => .added) (ListStore.add m (← r.toValues)) rows) := by
  cases hstored : r.toValues with
  | error e =>
    refine follows_error e _ fun t => ?_
    simp only [Transact.add, Outcome.bind_eq, Outcome.lift_eq, hstored]
  | ok stored =>
    exact follows_access hkey (a := .add m r) hm (fun _ => .added)
      fun t rows ht => Access.add_agrees ht hstored

def FollowsCall (models : Model → Prop) (m : Model) (body : Except CodecError (Transact Answer)) :
    Except CodecError (List Values → Except StoreError (Answer × List Values)) → Prop
  | .error e => body = .error e
  | .ok perform => ∃ x, body = .ok x ∧ Follows models m x perform

/-- Every call of a transaction does to its table what it does to a list. -/
theorem follows_callBody (hkey : OneKey models) (hm : models m) (call : Call) :
    FollowsCall models m (callBody m call) (ListCall.inside m call) := by
  cases call with
  | create values =>
    refine ⟨_, rfl, ?_⟩
    rw [← bind_pure_comp]
    exact follows_access hkey (a := .create m values) hm .record
      fun t rows ht => Access.create_agrees ht values
  | objects =>
    refine ⟨_, rfl, ?_⟩
    rw [← bind_pure_comp]
    exact follows_access hkey (a := .objects m) hm .records fun t rows ht =>
      Access.objects_agrees ht
  | add object =>
    rw [callBody, ListCall.inside]
    cases m.recordArgument object with
    | error e => rfl
    | ok r => exact ⟨_, rfl, follows_add hkey hm r⟩
  | resolve object =>
    rw [callBody, ListCall.inside]
    cases m.recordArgument object with
    | error e => rfl
    | ok r =>
      refine ⟨_, rfl, follows_identity fun i wanted hi hwanted => ?_⟩
      exact follows_access hkey (a := .resolve m i) hm .record
        fun t rows ht => Access.resolve_agrees ht hi hwanted
  | modify object changes =>
    rw [callBody, ListCall.inside]
    cases m.recordArgument object with
    | error e => rfl
    | ok r =>
      simp only [ok_bind]
      cases m.changesArgument changes with
      | error e => rfl
      | ok changes =>
        refine ⟨_, rfl, follows_identity fun i wanted hi hwanted => ?_⟩
        exact follows_access hkey (a := .modify m i (·.setAll changes)) hm .record
          fun t rows ht => Access.update_agrees ht hi hwanted changes
  | delete object =>
    rw [callBody, ListCall.inside]
    cases m.recordArgument object with
    | error e => rfl
    | ok r =>
      refine ⟨_, rfl, follows_identity fun i wanted hi hwanted => ?_⟩
      exact follows_access hkey (a := .delete m i) hm (fun _ => .deleted)
        fun t rows ht => Access.delete_agrees ht hi hwanted
  | reference object =>
    rw [callBody, ListCall.inside]
    cases m.recordArgument object with
    | error e => rfl
    | ok r =>
      refine ⟨_, rfl, fun t lists h => ⟨t, ?_, .refl t, ?_⟩⟩
      · rw [Outcome.bind_eq, Outcome.lift_eq]
        cases m.identity r <;> rfl
      · cases m.identity r with
        | error e => exact h
        | ok i =>
          show Shows models t.writable (Function.update lists m.typeName (lists m.typeName))
          rw [Function.update_eq_self]
          exact h

def FollowsSteps (models : Model → Prop) (nested : Request → Run Answer) (steps : List Step)
    (t : Transaction) (lists : Lists) : Prop :=
  ∃ t', (∀ sess, outcome (runSteps nested steps t) sess =
      (.ok ((lists.run steps).1, (lists.run steps).2.1, t'), sess)) ∧
    t.Reaches t' t'.writable ∧ Shows models t'.writable (lists.run steps).2.2

/-- A step that is answered and leaves a transaction in which the rest goes as on lists. -/
theorem FollowsSteps.cons {steps rest : List Step} {a : Answer} {t' : Transaction}
    {lists' : Lists} (h : FollowsSteps models nested rest t' lists')
    (hrun : runSteps nested steps t = answeredFirst a (runSteps nested rest t'))
    (hlists : lists.run steps = (lists'.run rest).after a) (hreaches : t.Reaches t' t'.writable) :
    FollowsSteps models nested steps t lists := by
  obtain ⟨t'', hrest, hreaches', hshows⟩ := h
  refine ⟨t'', fun sess => ?_, hreaches.trans hreaches', hlists ▸ hshows⟩
  rw [hrun, hlists, answeredFirst, Outcome.bind_eq, hrest]
  rfl

/-- A call in a transaction does to the tables that are shown what it does to their lists, whether
its failure is caught or not. -/
theorem followsSteps_call (hkey : OneKey models) {call : Call} {isCaught : Bool} {rest : List Step}
    (hm : models m) (h : Shows models t.writable lists)
    (hrest : ∀ {t' : Transaction} {lists' : Lists}, Shows models t'.writable lists' →
      FollowsSteps models nested rest t' lists') :
    FollowsSteps models nested (.call m call isCaught :: rest) t lists := by
  have hfollows := follows_callBody hkey hm call
  cases hinside : ListCall.inside m call with
  | error e =>
    -- the arguments stand for nothing, and the transaction goes on
    rw [hinside] at hfollows
    have hbody : callBody m call = .error e := hfollows
    refine (hrest h).cons (a := .misuse e.message) ?_ ?_ (.refl t)
    · rw [runSteps]
      simp only [hbody]
      rfl
    · rw [Lists.run, hinside]
  | ok perform =>
    rw [hinside] at hfollows
    obtain ⟨body, hbody, hperform⟩ := hfollows
    obtain ⟨t', hrun, hreaches, hshows⟩ := hperform t lists h
    have hcall : body.run.run t = _ := hrun
    cases hresult : perform (lists m.typeName) with
    | ok result =>
      rw [hresult] at hcall hshows
      refine (hrest hshows).cons (a := result.1) ?_ ?_ hreaches
      · rw [runSteps]
        simp only [hbody, hcall]
        rfl
      · rw [Lists.run, hinside]
        simp only [hresult]
    | error e =>
      rw [hresult] at hcall hshows
      have hrun : runSteps nested (.call m call isCaught :: rest) t =
          if isCaught then answeredFirst (.failed e) (runSteps nested rest t')
          else pure (.failed e, [.failed e], t') := by
        rw [runSteps]
        simp only [hbody, hcall]
        rfl
      have hlists : lists.run (.call m call isCaught :: rest) =
          if isCaught then (lists.run rest).after (.failed e)
          else (.failed e, [.failed e], lists) := by
        rw [Lists.run, hinside]
        simp only [hresult]
        rfl
      cases isCaught with
      | true => exact (hrest hshows).cons hrun hlists hreaches
      | false =>
        refine ⟨t', fun sess => ?_, hreaches, hlists ▸ hshows⟩
        rw [hrun, hlists]
        rfl

/-- All steps of a transaction do to what it shows what they do to the lists. -/
theorem followsSteps (hkey : OneKey models) (nested : Request → Run Answer) {steps : List Step}
    (hplain : steps.all Step.isPlain = true) (hm : ∀ m ∈ steps.filterMap Step.model?, models m)
    (h : Shows models t.writable lists) : FollowsSteps models nested steps t lists := by
  induction steps generalizing t lists with
  | nil => exact ⟨t, fun _ => rfl, .refl t, h⟩
  | cons step rest ih =>
    rw [List.all_cons, Bool.and_eq_true] at hplain
    have hrest {t' : Transaction} {lists' : Lists} (h' : Shows models t'.writable lists') :
        FollowsSteps models nested rest t' lists' := by
      refine ih hplain.2 (fun m hmem => hm m ?_) h'
      rw [List.filterMap_cons]
      split
      · exact hmem
      · exact List.mem_cons_of_mem _ hmem
    cases step with
    | call m call isCaught => exact followsSteps_call hkey (hm m List.mem_cons_self) h hrest
    | fail isCaught =>
      cases isCaught with
      | true =>
        exact (hrest h).cons (a := .failed .invalidated) (by rw [runSteps]; rfl)
          (by rw [Lists.run]; rfl) (.refl t)
      | false => exact ⟨t, fun _ => rfl, .refl t, h⟩
    | panic | run => exact absurd hplain.1 Bool.false_ne_true

/-- A write answers and makes of its store what it does on lists. -/
theorem leaves_write (hkey : OneKey models) (nested : Request → Run Answer) {op : StoreOperation}
    {steps : List Step} (hwork : op.work = .write steps) (hplain : steps.all Step.isPlain = true)
    (hm : ∀ m ∈ steps.filterMap Step.model?, models m) {s : Store} (hs : s.Holds models lists) :
    ∃ s', Leaves nested op s (lists.write steps).1 s' ∧ s'.identifier = s.identifier ∧
      s'.Holds models (lists.write steps).2 := by
  have hbegin : Shows models s.begin.writable lists := Store.begin_writable s ▸ hs
  obtain ⟨t, hrun, hreaches, hshows⟩ := followsSteps hkey nested hplain hm hbegin
  have hperform : perform nested op = performWrite nested op steps := by
    unfold Session.perform
    rw [hwork]
  unfold Lists.write
  rcases hlists : lists.run steps with ⟨ending, answers, left⟩
  rw [hlists] at hrun hshows
  cases ending with
  | finished =>
    refine ⟨s.commit t, fun sess hstore => ?_, rfl, ?_⟩
    · rw [hperform, outcome_performWrite hstore hrun]
    · show Shows models _ _
      rw [Store.tables_commit hreaches]
      exact hshows
  | failed e =>
    refine ⟨s, fun sess hstore => ?_, rfl, hs⟩
    rw [hperform, outcome_performWrite hstore hrun, Process.setStore_self hstore]

end RecordStore.Session
