import RecordStore.Proofs.Store.Failure

/-!
Batches. A transaction that does some operations one after the other, whatever they are answered,
answers each of them as a write of its own would, and leaves the tables as those writes do: what it
shows after each operation is what a store has after that operation's write.
-/
namespace RecordStore

namespace Script

/-- Does some operations in their order and keeps what each is answered, failures included, after
what is kept already. -/
def batch (kept : List Answered) : List Access → Script (List Answered)
  | [] => .finish (.ok kept)
  | a :: rest => .call a fun answer => batch (kept ++ [⟨a, answer⟩]) rest

end Script

/-- What some operations are answered one after the other, and what is seen after them. -/
def View.each : List Access → View → List Answered × View
  | [], v => ([], v)
  | a :: rest, v =>
    let (answered, v') := View.each rest (a.onView v).2
    (⟨a, (a.onView v).1⟩ :: answered, v')

theorem Script.onView_batch (kept : List Answered) (accesses : List Access) (v : View) :
    (batch kept accesses).onView v =
      (.ok (kept ++ (View.each accesses v).1), (View.each accesses v).2) := by
  induction accesses generalizing kept v with
  | nil => simp [batch, onView, View.each]
  | cons a rest ih => simp only [batch, onView, ih, View.each, List.append_assoc, List.cons_append,
      List.nil_append]

namespace Store

/-- Does some operations, each in a write of its own. -/
def writeEach (c : Configuration) : List Access → Store → List Answered × Store
  | [], s => ([], s)
  | a :: rest, s =>
    let (answered, s') := writeEach c rest (s.write c a.perform).2
    (⟨a, (s.write c a.perform).1⟩ :: answered, s')

/-- A write of one operation does to the tables of the store what the operation does. -/
theorem write_perform (s : Store) {c : Configuration} (hc : c.readOnly = false) (a : Access) :
    (s.write c a.perform).1 = (a.onView s.tables.table).1 ∧
      (s.write c a.perform).2.tables.table = (a.onView s.tables.table).2 := by
  unfold Access.onView
  rw [s.write_of_writable hc]
  cases hattempt : a.attempt (s.tables.table a.typeName) with
  | error e =>
    rw [transact_of_error hattempt]
    exact ⟨rfl, rfl⟩
  | ok result =>
    obtain ⟨s', hrun, htables⟩ := transact_of_ok hattempt
    rw [hrun]
    exact ⟨rfl, htables⟩

/-- Writes of one operation each do to the tables what the operations do one after the other. -/
theorem writeEach_eq {c : Configuration} (hc : c.readOnly = false) (accesses : List Access)
    (s : Store) :
    (writeEach c accesses s).1 = (View.each accesses s.tables.table).1 ∧
      (writeEach c accesses s).2.tables.table = (View.each accesses s.tables.table).2 := by
  induction accesses generalizing s with
  | nil => exact ⟨rfl, rfl⟩
  | cons a rest ih =>
    obtain ⟨hanswer, htables⟩ := s.write_perform hc a
    obtain ⟨hanswers, hend⟩ := ih (s.write c a.perform).2
    rw [htables] at hanswers hend
    constructor
    · simp only [writeEach, View.each, hanswer, hanswers]
    · exact hend

theorem writeEach_of_readOnly {c : Configuration} (hc : c.readOnly = true)
    (accesses : List Access) (s : Store) :
    writeEach c accesses s = (accesses.map (⟨·, .error (.readOnly s.identifier)⟩), s) := by
  induction accesses with
  | nil => rfl
  | cons a rest ih =>
    simp only [writeEach, s.write_of_readOnly hc, ih, List.map_cons]

/-- A batch is answered as its operations are, each in a write of its own, and leaves the tables as
these writes do, with their rows, keys and row numbers. Through a read-only handle the batch is
refused, and so is each of its operations. -/
theorem batch_equals_parts (s : Store) (c : Configuration) (accesses : List Access) :
    (s.write c (Script.batch [] accesses).run).1 =
      (if c.readOnly then .error (.readOnly s.identifier) else .ok (writeEach c accesses s).1) ∧
    (s.write c (Script.batch [] accesses).run).2.tables.table =
      (writeEach c accesses s).2.tables.table ∧
    (c.readOnly = true → ∀ answered ∈ (writeEach c accesses s).1,
      answered.answer = .error (.readOnly s.identifier)) := by
  cases hc : c.readOnly with
  | true =>
    rw [s.write_of_readOnly hc, writeEach_of_readOnly hc]
    refine ⟨rfl, rfl, fun _ answered hanswered => ?_⟩
    obtain ⟨a, -, rfl⟩ := List.mem_map.mp hanswered
    rfl
  | false =>
    obtain ⟨hanswer, htables⟩ := s.write_script hc (Script.batch [] accesses)
    obtain ⟨hanswers, hend⟩ := writeEach_eq hc accesses s
    rw [Script.onView_batch] at hanswer htables
    refine ⟨?_, ?_, fun h => absurd h Bool.false_ne_true⟩
    · rw [hanswer, hanswers]
      rfl
    · rw [htables _ rfl, hend]

end Store

end RecordStore
