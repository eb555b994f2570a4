import RecordStore.Proofs.Session.Operation
import RecordStore.Proofs.Session.Process
import RecordStore.Session.Run

/-!
Operations where nothing waits. An operation that is let go on in such a session is done at once: it
takes its locks, makes its call and gives the locks up again, so that all that is left of it is what
its call did to the store.
-/
namespace RecordStore

theorem Lock.leave_acquire (ticket : Nat) : (({} : Lock).acquire ticket).leave ticket = {} := by
  simp [Lock.acquire, Lock.leave, Lock.isHeldBy, Lock.release]

namespace Session

variable {α : Type} {nested : Request → Run Answer} {op : StoreOperation} {body : Transact α}
  {answer : α → Answer} {sess : Session} {n : Nat}

def IsFree (op : StoreOperation) (p : Process) : Prop :=
  match op.actor with
  | none => True
  | some n => ∃ a, p.actors[n]? = some a ∧ a.serial = {} ∧ a.isClosed = false

def acquireActor (op : StoreOperation) (p : Process) : Process :=
  match op.actor with
  | none => p
  | some n => p.updateActor n fun a => { a with serial := a.serial.acquire op.ticket }

/-- An operation that takes a lock nobody has or waits for, and gives it up, leaves no trace. -/
theorem leaveActor_acquireActor {p : Process}
    (h : ∀ n, op.actor = some n → ∀ a, p.actors[n]? = some a → a.serial = {}) :
    op.leaveActor (acquireActor op p) = p := by
  unfold StoreOperation.leaveActor acquireActor
  cases hactor : op.actor with
  | none => rfl
  | some n =>
    simp only [Process.updateActor, List.modify_modify_eq]
    rw [modify_eq_self fun a ha => ?_]
    have hserial := h n hactor a ha
    show { a with serial := (a.serial.acquire op.ticket).leave op.ticket } = a
    rw [hserial, Lock.leave_acquire, ← hserial]

theorem IsFree.serial_eq {p : Process} (h : IsFree op p) (n : Nat) (hactor : op.actor = some n)
    (a : Actor) (ha : p.actors[n]? = some a) : a.serial = {} := by
  simp only [IsFree, hactor] at h
  obtain ⟨a', ha', hserial, -⟩ := h
  obtain rfl : a = a' := Option.some.inj (ha.symm.trans ha')
  exact hserial

/-- An operation that is let through goes on with its store. -/
theorem outcome_advance (hstart : op.stage = .start) (h : IsFree op sess.process) :
    outcome (advance nested op) sess = outcome (enterStore nested op)
      { sess with process := acquireActor op sess.process } := by
  unfold advance acquireActor
  unfold IsFree at h
  rw [hstart]
  cases hactor : op.actor with
  | none => rfl
  | some n =>
    rw [hactor] at h
    obtain ⟨a, ha, hserial, hclosed⟩ := h
    have hheld : ((a.serial.acquire op.ticket).isHeldBy op.ticket) = true := by
      simp [hserial, Lock.acquire, Lock.isHeldBy]
    simp only [Outcome.bind_eq, outcome_updateProcess, withActor, Outcome.get_eq,
      Process.updateActor, List.getElem?_modify_eq, ha, Option.map_eq_map, Option.map_some, hheld,
      hclosed, Bool.not_true, Bool.false_eq_true, if_false]

theorem outcome_finish (h : IsFree op sess.process) (a : Answer) :
    outcome (do
      updateProcess op.leaveActor
      return Progress.done a) { sess with process := acquireActor op sess.process } =
      (.ok (.done a), sess) := by
  simp only [Outcome.bind_eq, outcome_updateProcess, leaveActor_acquireActor h.serial_eq]
  rfl

theorem stores_acquireActor (op : StoreOperation) (p : Process) :
    (acquireActor op p).stores = p.stores := by
  unfold acquireActor
  split <;> rfl

def listAnswer : Except StoreError (List Record) → Answer
  | .ok records => .records records
  | .error e => .failed e

/-- With its lock free a listing answers at once. -/
theorem outcome_advance_list (hstart : op.stage = .start) (hwork : op.work = .list none)
    (h : IsFree op sess.process) {s : Store} (hs : sess.process.store? op.store = some s) :
    outcome (advance nested op) sess = (.ok (.done (listAnswer (s.objects op.model))), sess) := by
  have hs' : (acquireActor op sess.process).store? op.store = some s := by
    rw [Process.store?, stores_acquireActor]
    exact hs
  rw [outcome_advance hstart h]
  unfold enterStore
  rw [hwork]
  simp only [listStore, answerRecords, Outcome.bind_eq, Outcome.get_eq, hs']
  cases s.objects op.model with
  | error e => exact outcome_finish h (.failed e)
  | ok records => exact outcome_finish h (.records records)

theorem outcome_advance_readOnly (hstart : op.stage = .start) (hwrite : op.work.isWrite = true)
    (hreadOnly : op.configuration.readOnly = true) (h : IsFree op sess.process) :
    outcome (advance nested op) sess =
      (.ok (.done (op.failure (.readOnly op.configuration.identifier))), sess) := by
  rw [outcome_advance hstart h, enterStore_eq hwrite, if_pos hreadOnly]
  exact outcome_finish h _

/-- Taking and leaving a free lock around a write leaves only what was written. -/
theorem leaveWriter_setStore {p : Process} {o : OpenStore} (ho : p.stores[op.store]? = some o)
    (hwriter : o.writer = {}) (s : Store) :
    op.leaveWriter ((p.updateStore op.store fun o =>
      { o with writer := o.writer.acquire op.ticket }).setStore op.store s) =
      p.setStore op.store s := by
  simp only [StoreOperation.leaveWriter, Process.setStore, Process.updateStore,
    List.modify_modify_eq]
  rw [modify_congr fun o' ho' => ?_]
  obtain rfl : o = o' := Option.some.inj (ho.symm.trans ho')
  show ({ o with store := s, writer := (o.writer.acquire op.ticket).leave op.ticket } : OpenStore) =
    { o with store := s }
  rw [hwriter, Lock.leave_acquire, ← hwriter]

theorem acquireActor_setStore (op : StoreOperation) (p : Process) (place : Nat) (s : Store) :
    acquireActor op (p.setStore place s) = (acquireActor op p).setStore place s := by
  unfold acquireActor
  split <;> rfl

/-- An operation that answers and makes of its store what is given, whatever locks are held. -/
def Leaves (nested : Request → Run Answer) (op : StoreOperation) (s : Store) (a : Answer)
    (s' : Store) : Prop :=
  ∀ sess : Session, sess.process.store? op.store = some s →
    outcome (perform nested op) sess =
      (.ok a, { sess with process := sess.process.setStore op.store s' })

theorem leaves_of_call (hperform : perform nested op = performCall op body answer) (s : Store) :
    Leaves nested op s (callAnswer op answer (s.transact body).1) (s.transact body).2 := by
  intro sess hs
  rw [hperform, outcome_performCall, hs]

/-- With the lock of its actor an operation takes that of its store, and has given up both when it
has done its work. -/
theorem outcome_lockWriter (h : IsFree op sess.process) {o : OpenStore}
    (ho : sess.process.stores[op.store]? = some o) (hwriter : o.writer = {}) {a : Answer}
    {s' : Store} (hleaves : Leaves nested op o.store a s') :
    outcome (do
      updateProcess fun p =>
        p.updateStore op.store fun o => { o with writer := o.writer.acquire op.ticket }
      withWriter nested op) { sess with process := acquireActor op sess.process } =
      (.ok (.done a), { sess with process := sess.process.setStore op.store s' }) := by
  have hheld : (o.writer.acquire op.ticket).isHeldBy op.ticket = true := by
    simp [hwriter, Lock.acquire, Lock.isHeldBy]
  have hacquired : ((acquireActor op sess.process).updateStore op.store fun o =>
      { o with writer := o.writer.acquire op.ticket }).stores[op.store]? =
      some { o with writer := o.writer.acquire op.ticket } := by
    simp [Process.updateStore, stores_acquireActor, ho]
  have hstore : ((acquireActor op sess.process).updateStore op.store fun o =>
      { o with writer := o.writer.acquire op.ticket }).store? op.store = some o.store := by
    rw [Process.store?, hacquired]
    rfl
  have hleft : op.leaveActor (op.leaveWriter (((acquireActor op sess.process).updateStore op.store
      fun o => { o with writer := o.writer.acquire op.ticket }).setStore op.store s')) =
      sess.process.setStore op.store s' := by
    have ho' : (acquireActor op sess.process).stores[op.store]? = some o := by
      rw [stores_acquireActor]
      exact ho
    rw [leaveWriter_setStore ho' hwriter, ← acquireActor_setStore]
    exact leaveActor_acquireActor h.serial_eq
  have hperform : outcome (perform nested op) { sess with
      process := (acquireActor op sess.process).updateStore op.store
        (fun o => { o with writer := o.writer.acquire op.ticket }) } = _ := hleaves _ hstore
  simp only [Outcome.bind_eq, Outcome.modify_eq, withWriter, Outcome.get_eq, hacquired,
    if_pos hheld, updateProcess, Outcome.tryFinally_eq, hperform, hleft]
  rfl

theorem outcome_advance_write (hstart : op.stage = .start) (hwrite : op.work.isWrite = true)
    (hreadOnly : op.configuration.readOnly = false) (h : IsFree op sess.process) {o : OpenStore}
    (ho : sess.process.stores[op.store]? = some o) (hwriter : o.writer = {}) {a : Answer}
    {s' : Store} (hleaves : Leaves nested op o.store a s') :
    outcome (advance nested op) sess =
      (.ok (.done a), { sess with process := sess.process.setStore op.store s' }) := by
  rw [outcome_advance hstart h, enterStore_eq hwrite, if_neg (by simp [hreadOnly])]
  exact outcome_lockWriter h ho hwriter hleaves

def conclude (nested : Request → Run Answer) (r : Request) : Prepared → Run Answer
  | .answer a => return a
  | .immediate => runImmediate r
  | .operation op => do
    match ← advance nested op with
    | .done answer => return answer
    | .waiting op =>
      updateProcess op.abandon
      return .blocked

/-- A request through an actor is answered at once, or becomes an operation with the next ticket. -/
theorem outcome_actorOperation {n : Nat} {a : Actor} (ha : sess.process.actors[n]? = some a)
    (work : Model → Except Answer Work) :
    outcome (actorOperation n work) sess =
      match work a.model with
      | .error answer => (.ok (.answer answer), sess)
      | .ok w => (.ok (.operation {
          ticket := sess.nextTicket, model := a.model, actor := some n, store := a.store,
          configuration := a.configuration, work := w }),
        { sess with nextTicket := sess.nextTicket + 1 }) := by
  simp only [actorOperation, Outcome.bind_eq, Outcome.get_eq, ha]
  cases work a.model <;> rfl

/-- An operation that is done at once is all there is to its request. -/
theorem outcome_conclude {nested : Request → Run Answer} {op : StoreOperation} {answer : Answer}
    {sess' : Session} (h : outcome (advance nested op) sess = (.ok (.done answer), sess'))
    (r : Request) : outcome (conclude nested r (.operation op)) sess = (.ok answer, sess') := by
  simp only [conclude, Outcome.bind_eq, h]
  rfl

theorem runOuter_eq {bound : Nat} {r : Request} {a : Answer} {sess' : Session}
    (h : outcome (run bound r) sess = (.ok a, sess')) :
    (runOuter bound r).run sess = (a, sess') := by
  have hrun : StateT.run (run bound r) sess = (.ok a, sess') := h
  unfold runOuter
  rw [StateT.run_bind, hrun]
  rfl

end Session

end RecordStore
