import RecordStore.Proofs.Store.History

/-!
What fails does nothing. An operation that fails leaves every table as its transaction showed it. A
write that fails, or goes through a read-only handle, leaves the store as it was. A write that
succeeds commits what its successful operations do: without those that failed the others are
answered as before and the same tables are committed.
-/
namespace RecordStore

/-- An operation with its answer. -/
structure Answered where
  access : Access
  answer : Except StoreError access.Reply

/-- Whether an operation succeeded. -/
def Answered.isOk (c : Answered) : Bool :=
  match c.answer with
  | .ok _ => true
  | .error _ => false

namespace Script

variable {α : Type}

/-- The operations that a script does in a transaction, with their answers. -/
def calls : Script α → Transaction → List Answered
  | .finish _, _ => []
  | .call a next, t =>
    ⟨a, (outcome a.perform t).1⟩ ::
      (next (outcome a.perform t).1).calls (outcome a.perform t).2

/-- The operations among them that succeed. -/
def successes (script : Script α) (t : Transaction) : List Access :=
  ((script.calls t).filter (·.isOk)).map Answered.access

/-- Does some operations in their order, whatever they are answered. -/
def ofAccesses : List Access → Script Unit
  | [] => .finish (.ok ())
  | a :: rest => .call a fun _ => ofAccesses rest

end Script

/-- Two points of a transaction at which it shows the same. -/
structure Transaction.Alike (t t' : Transaction) : Prop where
  base : t'.base = t.base
  tables : t'.writable = t.writable
  objects : ∀ m, (outcome (Transact.objects m) t').1 = (outcome (Transact.objects m) t).1
  resolve : ∀ m i, (outcome (Transact.resolve m i) t').1 = (outcome (Transact.resolve m i) t).1

theorem Access.onView_of_error {a : Access} {v : View} {e : StoreError}
    (h : (a.onView v).1 = .error e) : (a.onView v).2 = v := by
  unfold onView at h ⊢
  split
  · next hattempt =>
    rw [hattempt] at h
    cases h
  · rfl

/-- An operation that fails changes nothing that its transaction shows. -/
theorem Access.alike_of_error {a : Access} {t t' : Transaction} {e : StoreError}
    (h : outcome a.perform t = (.error e, t')) : t.Alike t' := by
  obtain ⟨t'', hrun, hreaches⟩ := outcome_perform a t
  rw [h] at hrun
  obtain ⟨hanswer, rfl⟩ := Prod.mk.inj hrun
  have htables : t'.writable = t.writable := by
    rw [hreaches.view, onView_of_error hanswer.symm]
  refine ⟨hreaches.base, htables, fun m => ?_, fun m i => ?_⟩
  · rw [outcome_objects, outcome_objects, htables]
  · rw [outcome_resolve, outcome_resolve, htables]

/-- The successful operations of a script, done alone, are answered as they were and show the same
tables in the end. -/
theorem Script.calls_successes {α : Type} (script : Script α) {t t' : Transaction}
    (h : t'.writable = t.writable) :
    (ofAccesses (script.successes t)).calls t' = (script.calls t).filter (·.isOk) ∧
      (ofAccesses (script.successes t)).onView t'.writable =
        (.ok (), (script.onView t.writable).2) := by
  induction script generalizing t t' with
  | finish result => exact ⟨rfl, by rw [h]; rfl⟩
  | call a next ih =>
    obtain ⟨t₁, hrun, hreaches⟩ := outcome_perform a t
    obtain ⟨t₁', hrun', hreaches'⟩ := outcome_perform a t'
    rw [h] at hrun' hreaches'
    have hview := hreaches.view
    have hview' := hreaches'.view
    have hcalls : (Script.call a next).calls t =
        ⟨a, (a.onView t.writable).1⟩ :: (next (a.onView t.writable).1).calls t₁ := by
      rw [calls, hrun]
    have honView : (Script.call a next).onView t.writable =
        (next (a.onView t.writable).1).onView t₁.writable := by
      rw [hview]
      rfl
    rw [successes, hcalls, honView]
    generalize hanswer : (a.onView t.writable).1 = answer at *
    cases answer with
    | error e =>
      -- the table is as it was, so the rest goes on from the same point
      have hsame : t'.writable = t₁.writable := by
        rw [hview, Access.onView_of_error hanswer, h]
      exact ih _ hsame
    | ok reply =>
      obtain ⟨hrest, hend⟩ := ih (.ok reply) (hview'.trans hview.symm)
      constructor
      · rw [List.filter_cons_of_pos rfl, List.map_cons, ofAccesses, calls, hrun']
        exact congrArg _ hrest
      · rw [← hend, hview', h]
        rfl

namespace Store

/-- What a write answers and commits, by what its script does on the tables of the store. -/
theorem write_script {α : Type} (s : Store) {c : Configuration} (hc : c.readOnly = false)
    (body : Script α) :
    (s.write c body.run).1 = (body.onView s.tables.table).1 ∧
      ∀ a, (body.onView s.tables.table).1 = .ok a →
        (s.write c body.run).2.tables.table = (body.onView s.tables.table).2 := by
  obtain ⟨t, hrun, hreaches⟩ := body.outcome_run s.begin
  rw [begin_writable] at hrun hreaches
  rw [s.write_of_writable hc, transact_eq, hrun]
  cases hanswer : (body.onView s.tables.table).1 with
  | error e =>
    refine ⟨rfl, fun a ha => ?_⟩
    cases ha
  | ok a => exact ⟨rfl, fun _ _ => tables_commit hreaches⟩

/-- A write that fails leaves the store as it was. -/
theorem write_of_error {α : Type} {s : Store} {c : Configuration} {body : Transact α}
    {e : StoreError} (h : (s.write c body).1 = .error e) : (s.write c body).2 = s := by
  unfold write at h ⊢
  split
  · rfl
  · next hc =>
    rw [if_neg hc, transact_eq] at h
    rw [transact_eq]
    split
    · next hbody =>
      rw [hbody] at h
      cases h
    · rfl

/-- A failed operation changes nothing that its transaction shows, a failed or refused write nothing
of its store, and what a write commits is what its successful operations do alone. -/
theorem failure_changes_nothing {α : Type} (s : Store) (c : Configuration) (body : Script α) :
    (∀ (a : Access) (t t' : Transaction) (e : StoreError),
      outcome a.perform t = (.error e, t') → t.Alike t') ∧
    (∀ e, (s.write c body.run).1 = .error e → (s.write c body.run).2 = s) ∧
    (c.readOnly = true → s.write c body.run = (.error (.readOnly s.identifier), s)) ∧
    ∀ result, (s.write c body.run).1 = .ok result →
      (Script.ofAccesses (body.successes s.begin)).calls s.begin =
        (body.calls s.begin).filter (·.isOk) ∧
      (s.write c (Script.ofAccesses (body.successes s.begin)).run).1 = .ok () ∧
      (s.write c (Script.ofAccesses (body.successes s.begin)).run).2.tables.table =
        (s.write c body.run).2.tables.table := by
  refine ⟨fun _ _ _ _ => Access.alike_of_error, fun _ => write_of_error, fun hc => ?_,
    fun result hresult => ?_⟩
  · simp [write, hc]
  · have hc : c.readOnly = false := by
      cases hc : c.readOnly with
      | false => rfl
      | true => simp [write, hc] at hresult
    obtain ⟨hcalls, hview⟩ := body.calls_successes (rfl : s.begin.writable = s.begin.writable)
    rw [begin_writable] at hview
    obtain ⟨hanswer, htables⟩ := write_script s hc body
    obtain ⟨hanswer', htables'⟩ := write_script s hc (Script.ofAccesses (body.successes s.begin))
    rw [hview] at hanswer' htables'
    refine ⟨hcalls, hanswer', ?_⟩
    rw [htables' () rfl, htables result (hanswer ▸ hresult)]

end Store

end RecordStore
