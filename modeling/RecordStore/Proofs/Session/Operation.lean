import RecordStore.Proofs.Computation
import RecordStore.Session.Operation
import Mathlib.Logic.Function.Basic

/-!
How operations that make one call go on. Whatever locks it takes and gives up on the way, such an
operation makes its call once, on the store as it is then, or leaves every store as it was.
-/
namespace RecordStore

namespace Process

variable {p : Process} {place : Nat}

theorem store_updateStore {f : OpenStore → OpenStore} (hf : ∀ o, (f o).store = o.store) :
    (p.updateStore place f).store? = p.store? := by
  funext n
  simp only [store?, updateStore, List.getElem?_modify]
  split <;> cases p.stores[n]? <;> simp [hf]

theorem store_setStore {old : Store} (h : p.store? place = some old) (s : Store) :
    (p.setStore place s).store? = Function.update p.store? place (some s) := by
  funext n
  by_cases hn : n = place
  · subst hn
    obtain ⟨o, ho, -⟩ := Option.map_eq_some_iff.mp h
    simp [store?, setStore, updateStore, ho]
  · have hne : place ≠ n := Ne.symm hn
    simp [store?, setStore, updateStore, hn, hne]

end Process

namespace StoreOperation

variable (op : StoreOperation) (p : Process)

theorem store_leaveActor : (op.leaveActor p).store? = p.store? := by
  unfold leaveActor
  split <;> rfl

theorem store_leaveWriter : (op.leaveWriter p).store? = p.store? :=
  Process.store_updateStore fun _ => rfl

end StoreOperation

def Work.isWrite : Work → Bool
  | .create _ | .update .. | .delete _ | .write _ => true
  | .list _ | .observe .. => false

namespace Session

variable {α : Type} {nested : Request → Run Answer} {op : StoreOperation} {body : Transact α}
  {answer : α → Answer}

theorem outcome_updateProcess (f : Process → Process) (sess : Session) :
    outcome (updateProcess f) sess = (.ok (), { sess with process := f sess.process }) := rfl

def callAnswer (op : StoreOperation) (answer : α → Answer) : Except StoreError α → Answer
  | .ok a => answer a
  | .error e => op.failure e

theorem outcome_performCall (op : StoreOperation) (body : Transact α) (answer : α → Answer)
    (sess : Session) :
    outcome (performCall op body answer) sess =
      match sess.process.store? op.store with
      | none => (.ok .gone, sess)
      | some s => (.ok (callAnswer op answer (s.transact body).1),
          { sess with process := sess.process.setStore op.store (s.transact body).2 }) := by
  simp only [performCall, Outcome.bind_eq, Outcome.get_eq]
  cases sess.process.store? op.store with
  | none => rfl
  | some s =>
    simp only [Outcome.bind_eq, outcome_updateProcess]
    cases (s.transact body).1 <;> rfl

def updateAnswer (member : Option Record) (r : Record) : Answer :=
  match member with
  | some self => .member (self.adopt r) none
  | none => .record r

theorem perform_create {values : Values} (hwork : op.work = .create values) :
    perform nested op = performCall op (Transact.create op.model values) .record := by
  unfold perform
  rw [hwork]

theorem perform_update {i : Identity} {changes : List (String × Data)} {member : Option Record}
    (hwork : op.work = .update i changes member) :
    perform nested op = performCall op (Transact.modifyRecord op.model i (·.setAll changes))
      (updateAnswer member) := by
  unfold perform
  rw [hwork]
  rfl

theorem perform_delete {i : Identity} (hwork : op.work = .delete i) :
    perform nested op = performCall op (Transact.delete op.model i) fun _ => .deleted := by
  unfold perform
  rw [hwork]

/-- How an operation that makes one call can go on. -/
inductive Advanced (op : StoreOperation) (body : Transact α) (answer : α → Answer)
    (sess : Session) : Except Panic Progress × Session → Prop
  | waiting {sess' : Session} (stage : Stage)
      (h : sess'.process.store? = sess.process.store?) :
      Advanced op body answer sess (.ok (.waiting { op with stage := stage }), sess')
  /-- Its actor or its store is not there. -/
  | gone {sess' : Session} (h : sess'.process.store? = sess.process.store?) :
      Advanced op body answer sess (.ok (.done .gone), sess')
  | refused {sess' : Session} (e : StoreError) (h : sess'.process.store? = sess.process.store?) :
      Advanced op body answer sess (.ok (.done (op.failure e)), sess')
  | called {sess' : Session} {s : Store} (hs : sess.process.store? op.store = some s)
      (h : sess'.process.store? =
        Function.update sess.process.store? op.store (some (s.transact body).2)) :
      Advanced op body answer sess
        (.ok (.done (callAnswer op answer (s.transact body).1)), sess')

/-- What was changed before besides the stores makes no difference. -/
theorem Advanced.of_stores {sess sess' : Session} {result : Except Panic Progress × Session}
    (h : Advanced op body answer sess' result)
    (hstores : sess'.process.store? = sess.process.store?) :
    Advanced op body answer sess result := by
  cases h with
  | waiting stage h => exact .waiting stage (h.trans hstores)
  | gone h => exact .gone (h.trans hstores)
  | refused e h => exact .refused e (h.trans hstores)
  | called hs h => exact .called (hstores ▸ hs) (hstores ▸ h)

/-- With the lock of its store an operation makes its call. -/
theorem advanced_withWriter (hperform : perform nested op = performCall op body answer)
    (sess : Session) :
    Advanced op body answer sess (outcome (withWriter nested op) sess) := by
  have hleave (p : Process) : (op.leaveActor (op.leaveWriter p)).store? = p.store? :=
    (op.store_leaveActor _).trans (op.store_leaveWriter p)
  simp only [withWriter, Outcome.bind_eq, Outcome.get_eq]
  cases hplace : sess.process.stores[op.store]? with
  | none => exact .gone rfl
  | some o =>
    have hstore : sess.process.store? op.store = some o.store := by
      simp [Process.store?, hplace]
    by_cases hheld : o.writer.isHeldBy op.ticket
    · simp only [if_pos hheld, Outcome.bind_eq, hperform, updateProcess, Outcome.tryFinally_eq,
        outcome_performCall, hstore]
      refine .called hstore ?_
      exact (hleave _).trans (Process.store_setStore hstore _)
    · simp only [if_neg hheld]
      exact .waiting .awaitingWriter rfl

def IsCall : Work → Prop
  | .create _ | .update .. | .delete _ => True
  | .list _ | .observe .. | .write _ => False

theorem IsCall.isWrite {w : Work} (h : IsCall w) : w.isWrite = true := by
  cases w with
  | list | observe | write => exact h.elim
  | create | update | delete => rfl

/-- A write is refused by a read-only handle, and otherwise queues for the lock of its store. -/
theorem enterStore_eq (hwrite : op.work.isWrite = true) :
    enterStore nested op =
      if op.configuration.readOnly then (do
        updateProcess op.leaveActor
        return .done (op.failure (.readOnly op.configuration.identifier)))
      else (do
        updateProcess fun p =>
          p.updateStore op.store fun o => { o with writer := o.writer.acquire op.ticket }
        withWriter nested op) := by
  unfold enterStore
  cases hwork : op.work with
  | list | observe =>
    rw [hwork] at hwrite
    cases hwrite
  | create values | update identity changes member | delete identity | write steps => rfl

theorem advanced_enterStore (hcall : IsCall op.work)
    (hperform : perform nested op = performCall op body answer) (sess : Session) :
    Advanced op body answer sess (outcome (enterStore nested op) sess) := by
  rw [enterStore_eq hcall.isWrite]
  split
  · exact .refused (.readOnly op.configuration.identifier) (op.store_leaveActor _)
  · simp only [Outcome.bind_eq, outcome_updateProcess]
    exact (advanced_withWriter hperform _).of_stores (Process.store_updateStore fun _ => rfl)

/-- With the lock of its actor an operation goes on to its store. -/
theorem advanced_withActor (hcall : IsCall op.work)
    (hperform : perform nested op = performCall op body answer) (place : Nat) (sess : Session) :
    Advanced op body answer sess (outcome (withActor nested op place) sess) := by
  simp only [withActor, Outcome.bind_eq, Outcome.get_eq]
  cases sess.process.actors[place]? with
  | none => exact .gone rfl
  | some a =>
    simp only
    split
    · exact .waiting .awaitingActor rfl
    · split
      · exact .refused (.closed op.model.typeName) (op.store_leaveActor _)
      · exact advanced_enterStore hcall hperform sess

/-- An operation that makes one call makes it once or changes no store. It does not panic. -/
theorem advanced (hcall : IsCall op.work)
    (hperform : perform nested op = performCall op body answer) (sess : Session) :
    Advanced op body answer sess (outcome (advance nested op) sess) := by
  have hstart (place : Nat) : Advanced op body answer sess (outcome (do
      updateProcess fun p =>
        p.updateActor place fun a => { a with serial := a.serial.acquire op.ticket }
      withActor nested op place) sess) := by
    simp only [Outcome.bind_eq, outcome_updateProcess]
    exact (advanced_withActor hcall hperform place _).of_stores rfl
  unfold advance
  cases hstage : op.stage with
  | awaitingWriter => exact advanced_withWriter hperform sess
  | start =>
    cases hactor : op.actor with
    | none => exact advanced_enterStore hcall hperform sess
    | some place => exact hstart place
  | awaitingActor =>
    cases hactor : op.actor with
    | none => exact advanced_enterStore hcall hperform sess
    | some place => exact advanced_withActor hcall hperform place sess

end Session

end RecordStore
