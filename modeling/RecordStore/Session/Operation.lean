import RecordStore.Model.Argument
import RecordStore.Session.Process
import RecordStore.Session.Request

/-!
A session: a process with named handles, and operations that may have to wait. An operation that
goes through an actor takes the actor's lock first and the writer lock of the store second, and
holds both until it is done. A panic ends everything that is running; locks are given up on the
way out, and what was done before it stays done.
-/
namespace RecordStore

/-- What an operation does once it holds its locks. -/
inductive Work where
  | create (values : Values)
  /-- Changes the stored counterpart of a record, and the record itself if it is given. -/
  | update (identity : Identity) (changes : List (String × Data)) (member : Option Record)
  | delete (identity : Identity)
  | list (as : Option String)
  | observe (as : String) (isReachable : Bool)
  | write (steps : List Step)

inductive Stage where
  | start
  | awaitingActor
  | awaitingWriter
  deriving DecidableEq, Repr

/-- An operation on a store, perhaps through an actor. -/
structure StoreOperation where
  ticket : Nat
  model : Model
  actor : Option Nat
  store : Nat
  configuration : Configuration
  work : Work
  stage : Stage := .start

/-- What a name in a session stands for. -/
inductive Handle where
  | store (place : Nat) (configuration : Configuration)
  | actor (place : Nat) (isGenerated : Bool)
  /-- An observation; one that an actor started refers to the actor. -/
  | observation (store subscription : Nat) (actor : Option Nat)
  | token (store subscription : Nat)
  | results (records : List Record)
  | operation (operation : StoreOperation)
  /-- An operation that is being polled, or that panicked when it was. -/
  | spent

/-- A process with handles on it, and what the operations now running refer to. -/
structure Session where
  process : Process := .initial
  handles : List (String × Handle) := []
  running : List Root := []
  nextTicket : Nat := 0

/-- The end of a computation that went wrong beyond repair. -/
structure Panic where

/-- A computation in a session. -/
abbrev Run := ExceptT Panic (StateM Session)

namespace StoreOperation

def roots (op : StoreOperation) : List Root :=
  .store op.store :: (match op.actor with
    | some place => [.actor place]
    | none => [])

def leaveActor (op : StoreOperation) (p : Process) : Process :=
  match op.actor with
  | some place => p.updateActor place fun a => { a with serial := a.serial.leave op.ticket }
  | none => p

def leaveWriter (op : StoreOperation) (p : Process) : Process :=
  p.updateStore op.store fun o => { o with writer := o.writer.leave op.ticket }

def abandon (op : StoreOperation) (p : Process) : Process :=
  match op.stage with
  | .start => p
  | .awaitingActor => op.leaveActor p
  | .awaitingWriter => op.leaveActor (op.leaveWriter p)

def failure (op : StoreOperation) (e : StoreError) : Answer :=
  match op.work with
  | .write _ => .failedWrite e []
  | .update _ _ (some member) => .member member (some e)
  | _ => .failed e

end StoreOperation

namespace Handle

def roots : Handle → List Root
  | .store place _ => [.store place]
  | .actor place _ => [.actor place]
  | .observation _ _ (some place) => [.actor place]
  | .operation op => op.roots
  | _ => []

def release (h : Handle) (p : Process) : Process :=
  match h with
  | .observation place subscription _ => (p.invalidate place subscription).2
  | .operation op => op.abandon p
  | _ => p

end Handle

namespace Session

def handle? (s : Session) (name : String) : Option Handle := s.handles.lookup name

def replace (s : Session) (name : String) (h : Handle) : Session :=
  { s with handles := s.handles.map fun (n, old) => (n, if n == name then h else old) }

def roots (s : Session) : List Root := s.running ++ (s.handles.map (·.2.roots)).flatten

def settle (s : Session) : Session := { s with process := s.process.collect s.roots }

def updateProcess (f : Process → Process) : Run Unit :=
  modify fun s => { s with process := f s.process }

def onProcess {α : Type} (f : Process → α × Process) : Run α :=
  modifyGet fun s =>
    let (a, p) := f s.process
    (a, { s with process := p })

def take (name : String) : Run (Option Handle) := do
  let h := (← get).handle? name
  modify fun s => { s with handles := s.handles.filter (·.1 != name) }
  return h

/-- Names a handle. The handle that had the name is dropped when the new one is there. -/
def bind (name : String) (h : Handle) : Run Unit := do
  let old ← take name
  modify fun s => { s with handles := s.handles ++ [(name, h)] }
  match old with
  | some old => updateProcess old.release
  | none => pure ()

def unbind (name : String) : Run Bool := do
  match ← take name with
  | none => return false
  | some h =>
    updateProcess h.release
    return true

def panic {α : Type} : Run α := throw ⟨⟩

def freshTicket : Run Nat :=
  modifyGet fun s => (s.nextTicket, { s with nextTicket := s.nextTicket + 1 })

def callBody (m : Model) : Call → Except CodecError (Transact Answer)
  | .create values => .ok (.record <$> Transact.create m values)
  | .add object => do
    let r ← m.recordArgument object
    return do
      Transact.add m r
      return .added
  | .resolve object => do
    let r ← m.recordArgument object
    return do return .record (← Transact.resolve m (← m.identity r))
  | .modify object changes => do
    let r ← m.recordArgument object
    let changes ← m.changesArgument changes
    return do return .record (← Transact.modifyRecord m (← m.identity r) (·.setAll changes))
  | .delete object => do
    let r ← m.recordArgument object
    return do
      Transact.delete m (← m.identity r)
      return .deleted
  | .objects => .ok (.records <$> Transact.objects m)
  | .reference object => do
    let r ← m.recordArgument object
    return do return .text (← m.identity r).referenceText

inductive StepsOutcome where
  | finished
  | failed (error : StoreError)

def runSteps (nested : Request → Run Answer) :
    List Step → Transaction → Run (StepsOutcome × List Answer × Transaction)
  | [], t => return (.finished, [], t)
  | step :: rest, t => do
    let continueWith (a : Answer) (t : Transaction) :
        Run (StepsOutcome × List Answer × Transaction) := do
      let (outcome, answers, t) ← runSteps nested rest t
      return (outcome, a :: answers, t)
    let failWith (e : StoreError) (isCaught : Bool) (t : Transaction) :
        Run (StepsOutcome × List Answer × Transaction) := do
      if isCaught then continueWith (.failed e) t else return (.failed e, [.failed e], t)
    match step with
    | .call m call isCaught =>
      match callBody m call with
      | .error e => continueWith (.misuse e.message) t
      | .ok body =>
        match body.run.run t with
        | (.ok a, t) => continueWith a t
        | (.error e, t) => failWith e isCaught t
    | .fail isCaught => failWith .invalidated isCaught t
    | .panic => panic
    | .run r =>
      let a ← nested r
      continueWith a t

def performWrite (nested : Request → Run Answer) (op : StoreOperation) (steps : List Step) :
    Run Answer := do
  match (← get).process.store? op.store with
  | none => return .gone
  | some s =>
    let running := (← get).running
    modify ({ · with running := op.roots ++ running })
    let (outcome, answers, t) ←
      try runSteps nested steps s.begin
      finally modify ({ · with running := running })
    match outcome with
    | .failed e => return .failedWrite e answers
    | .finished =>
      updateProcess fun p => p.updateStore op.store fun o => { o with store := o.store.commit t }
      return .committed answers

def performCall {α : Type} (op : StoreOperation) (body : Transact α) (answer : α → Answer) :
    Run Answer := do
  match (← get).process.store? op.store with
  | none => return .gone
  | some s =>
    let (result, s) := s.transact body
    updateProcess (·.setStore op.store s)
    match result with
    | .ok a => return answer a
    | .error e => return op.failure e

def performObserve (op : StoreOperation) (as : String) (isReachable : Bool) : Run Answer := do
  match (← get).process.store? op.store with
  | none => return .gone
  | some s =>
    match s.observe op.model isReachable with
    | (.error e, _) => return .failed e
    | (.ok id, s) =>
      updateProcess (·.setStore op.store s)
      match op.actor with
      | some place => updateProcess (·.remember place id)
      | none => pure ()
      bind as (.observation op.store id op.actor)
      return .subscription id

def perform (nested : Request → Run Answer) (op : StoreOperation) : Run Answer :=
  match op.work with
  | .create values => performCall op (Transact.create op.model values) .record
  | .update identity changes member =>
    performCall op (Transact.modifyRecord op.model identity (·.setAll changes)) fun r =>
      match member with
      | some self => .member (self.adopt r) none
      | none => .record r
  | .delete identity => performCall op (Transact.delete op.model identity) fun _ => .deleted
  | .list _ => return .gone
  | .observe as isReachable => performObserve op as isReachable
  | .write steps => performWrite nested op steps

def answerRecords (as : Option String) (result : Except StoreError (List Record)) :
    Run Answer := do
  match result with
  | .error e => return .failed e
  | .ok records =>
    match as with
    | some name => bind name (.results records)
    | none => pure ()
    return .records records

def listStore (store : Nat) (m : Model) (as : Option String) : Run Answer := do
  match (← get).process.store? store with
  | none => return .gone
  | some s => answerRecords as (s.objects m)

/-- What became of an operation that was let go on. -/
inductive Progress where
  | done (answer : Answer)
  | waiting (operation : StoreOperation)

def withWriter (nested : Request → Run Answer) (op : StoreOperation) : Run Progress := do
  match (← get).process.stores[op.store]? with
  | none => return .done .gone
  | some o =>
    if o.writer.isHeldBy op.ticket then
      let answer ←
        try perform nested op
        finally updateProcess fun p => op.leaveActor (op.leaveWriter p)
      return .done answer
    else return .waiting { op with stage := .awaitingWriter }

/-- Goes on with the store, once the actor lets the operation through. Listing needs no lock of
the store, and a write through a read-only handle does not wait for one. -/
def enterStore (nested : Request → Run Answer) (op : StoreOperation) : Run Progress := do
  let finish (answer : Answer) : Run Progress := do
    updateProcess op.leaveActor
    return .done answer
  let lockWriter : Run Progress := do
    updateProcess fun p =>
      p.updateStore op.store fun o => { o with writer := o.writer.acquire op.ticket }
    withWriter nested op
  match op.work with
  | .list as => finish (← listStore op.store op.model as)
  | .observe _ _ => lockWriter
  | _ =>
    if op.configuration.readOnly then finish (op.failure (.readOnly op.configuration.identifier))
    else lockWriter

/-- Goes on if the actor's lock is held. Only then does it matter whether the actor is closed. -/
def withActor (nested : Request → Run Answer) (op : StoreOperation) (place : Nat) :
    Run Progress := do
  match (← get).process.actors[place]? with
  | none => return .done .gone
  | some a =>
    if !a.serial.isHeldBy op.ticket then return .waiting { op with stage := .awaitingActor }
    else if a.isClosed then
      updateProcess op.leaveActor
      return .done (op.failure (.closed op.model.typeName))
    else enterStore nested op

def advance (nested : Request → Run Answer) (op : StoreOperation) : Run Progress := do
  match op.stage, op.actor with
  | .awaitingWriter, _ => withWriter nested op
  | .awaitingActor, some place => withActor nested op place
  | .start, some place =>
    updateProcess fun p =>
      p.updateActor place fun a => { a with serial := a.serial.acquire op.ticket }
    withActor nested op place
  | _, none => enterStore nested op

end Session

end RecordStore
