import RecordStore.Session.Operation

/-!
Running requests in a session. A request is tried once; if it would have to wait it is given up,
unless it was begun, in which case it is kept and can be polled. The name of a request that was
begun is free again once its answer is there, whatever it stood for. A write may run requests in
the middle of its transaction, so requests nest; the bound on nesting is the number of requests
there are, since none runs inside itself.
-/
namespace RecordStore.Session

-- Sums start from the zero of the core library, whatever other instances are in scope.
attribute [local instance (high)] Zero.ofOfNat0

/-- What a request comes to before anything is done. -/
inductive Prepared where
  | operation (operation : StoreOperation)
  | answer (answer : Answer)
  /-- The request never waits. -/
  | immediate

def misused : Prepared := .answer (.misuse "the handle does not support the request")

def actorOperation (place : Nat) (work : Model → Except Answer Work) : Run Prepared := do
  match (← get).process.actors[place]? with
  | none => return misused
  | some a =>
    match work a.model with
    | .error answer => return .answer answer
    | .ok work =>
      return .operation {
        ticket := ← freshTicket
        model := a.model
        actor := some place
        store := a.store
        configuration := a.configuration
        work := work }

def unavailable : Answer := .misuse "model"

-- The default store is opened first, before it is known what the arguments stand for.
def memberOperation (m : Model) (work : Model → Except Answer Work) : Run Prepared := do
  if m.isDerived then
    let place ← onProcess (·.openActor m {})
    actorOperation place work
  else return .answer unavailable

/-- What an argument stands for; one that stands for nothing is a misuse. -/
def argument {α : Type} (result : Except CodecError α) : Except Answer α :=
  result.mapError fun e => .misuse e.message

def createWork (arguments : Values) (m : Model) : Except Answer Work := do
  let r ← argument (m.recordArgument arguments)
  return .create (← r.toValues.mapError .failed)

def updateWork (object changes : Values) (isMember : Bool) (m : Model) : Except Answer Work := do
  let r ← argument (m.recordArgument object)
  let failure (e : StoreError) : Answer := if isMember then .member r (some e) else .failed e
  let i ← (m.identity r).mapError failure
  return .update i (← argument (m.changesArgument changes)) (if isMember then some r else none)

def deleteWork (object : Values) (m : Model) : Except Answer Work := do
  let r ← argument (m.recordArgument object)
  return .delete (← (m.identity r).mapError .failed)

def onGenerated (on : String) (work : Model → Except Answer Work) : Run Prepared := do
  match (← get).handle? on with
  | none => return .answer .gone
  | some (.actor place true) => actorOperation place work
  | some _ => return misused

def storeOperation (place : Nat) (c : Configuration) (m : Model) (work : Work) : Run Prepared := do
  return .operation {
    ticket := ← freshTicket
    model := m
    actor := none
    store := place
    configuration := c
    work := work }

def anyModel : Model := ⟨"", [], [], .fields⟩

def prepare : Request → Run Prepared
  | .create on arguments => onGenerated on (createWork arguments)
  | .update on object changes => onGenerated on (updateWork object changes false)
  | .delete on object => onGenerated on (deleteWork object)
  | .list on model as => do
    match (← get).handle? on, model with
    | none, _ => return .answer .gone
    | some (.actor place _), _ => actorOperation place fun _ => .ok (.list as)
    | some (.store place c), some m => storeOperation place c m (.list as)
    | some _, _ => return misused
  | .observe on model as isReachable => do
    match (← get).handle? on, model with
    | none, _ => return .answer .gone
    | some (.actor place _), _ => actorOperation place fun _ => .ok (.observe as isReachable)
    | some (.store place c), some m => storeOperation place c m (.observe as isReachable)
    | some _, _ => return misused
  | .write on steps => do
    match (← get).handle? on with
    | none => return .answer .gone
    | some (.actor place false) => actorOperation place fun _ => .ok (.write steps)
    | some (.store place c) => storeOperation place c anyModel (.write steps)
    | some _ => return misused
  | .createMember m arguments => memberOperation m (createWork arguments)
  | .updateMember m object changes => memberOperation m (updateWork object changes true)
  | .deleteMember m object => memberOperation m (deleteWork object)
  | .listMember m as => memberOperation m fun _ => .ok (.list as)
  | .observeMember m as isReachable => memberOperation m fun _ => .ok (.observe as isReachable)
  | _ => return .immediate

def debugText (p : Process) : Handle → Option String
  | .store place c => (p.store? place).map fun s => storeText s.identifier c
  | .actor place isGenerated =>
    (p.actors[place]?).map fun a =>
      let actor := "ModelActor \x7b store: " ++ storeText a.configuration.identifier a.configuration
        ++ ", state: " ++ (if a.isClosed then "Closed" else "Ready") ++ ", .. \x7d"
      if isGenerated then a.model.typeName ++ "Actor \x7b inner: " ++ actor ++ " \x7d" else actor
  | .observation store subscription _ =>
    (p.observer? store subscription).map fun o =>
      "Observation \x7b token: " ++ tokenText o ++ ", finished: " ++ truth o.isFinished ++
        ", .. \x7d"
  | .token store subscription => (p.observer? store subscription).map tokenText
  | _ => none
where
  truth (b : Bool) : String := if b then "true" else "false"
  storeText (identifier : String) (c : Configuration) : String :=
    "Store \x7b identifier: " ++ Escape.quoted identifier ++ ", read_only: " ++
      truth c.readOnly ++ ", .. \x7d"
  tokenText (o : Observer) : String :=
    "NotificationToken \x7b subscription: " ++ toString o.subscription ++ ", invalidated: " ++
      truth o.isInvalidated ++ " \x7d"

/-- What a query shows of some records. A record that has to be there may be missing. -/
def queryAnswer (records : List Record) : Query → Option Answer
  | .get i => some (.item records[i]?)
  | .index i => records[i]?.map fun r => .item (some r)
  | .first => some (.item records.head?)
  | .last => some (.item records.getLast?)
  | .length => some (.length records.length)
  | .all => some (.items records)

def subscription? : Handle → Option (Nat × Nat)
  | .observation store id _ => some (store, id)
  | .token store id => some (store, id)
  | _ => none

def withHandle (on : String) (answer : Handle → Run (Option Answer)) : Run Answer := do
  match (← get).handle? on with
  | none => return .gone
  | some h => return (← answer h).getD (.misuse "the handle does not support the request")

def withSubscription (on : String) (answer : Nat → Nat → Run Answer) : Run Answer :=
  withHandle on fun h =>
    match subscription? h with
    | some (store, id) => some <$> answer store id
    | none => return none

def withActorHandle (on : String) (answer : Nat → Actor → Run Answer) : Run Answer :=
  withHandle on fun h => do
    match h with
    | .actor place _ =>
      match (← get).process.actors[place]? with
      | some a => some <$> answer place a
      | none => return none
    | _ => return none

def isClonable : Handle → Bool
  | .store .. | .actor .. | .token .. | .results .. => true
  | .observation .. | .operation .. | .spent => false

def runImmediate : Request → Run Answer
  | .openStore as c => do
    let place ← onProcess (·.openStore c)
    bind as (.store place c)
    return .opened
  | .openActor as m c isGenerated => do
    if m.offers isGenerated then
      let place ← onProcess (·.openActor m c)
      bind as (.actor place isGenerated)
      return .state false
    else return unavailable
  | .configuration on => withHandle on fun h => do
    match h with
    | .store _ c => return some (.configuration c)
    | .actor place _ =>
      return ((← get).process.actors[place]?).map fun a => .configuration a.configuration
    | _ => return none
  | .clone on as => withHandle on fun h => do
    if isClonable h then
      bind as h
      return some .cloned
    else return none
  | .drop on => .dropped <$> unbind on
  | .debug on => withHandle on fun h => do
    return (debugText (← get).process h).map .text
  | .subscriptions on => withHandle on fun h => do
    match h with
    | .store place _ =>
      return ((← get).process.store? place).map fun s => .count s.subscriptions.length
    | _ => return none
  | .state on => withActorHandle on fun _ a => return .state a.isClosed
  | .close on => withActorHandle on fun place _ => do
    updateProcess (·.close place)
    return .state true
  | .receive on => withHandle on fun h => do
    match h with
    | .observation store id _ =>
      match (← get).process.store? store with
      | none => return none
      | some s =>
        let (received, s) := s.receive id
        updateProcess (·.setStore store s)
        return some (.received received)
    | _ => return none
  | .cancel on => withHandle on fun h => do
    match h with
    | .observation store id _ =>
      updateProcess fun p => p.updateStore store fun o => { o with store := o.store.cancel id }
      return some .cancelled
    | _ => return none
  | .token on as => withSubscription on fun store id => do
    bind as (.token store id)
    return .subscription id
  | .tokenState on => withSubscription on fun store id => do
    match (← get).process.observer? store id with
    | some o => return .tokenState id o.isInvalidated
    | none => return .gone
  | .invalidate on => withSubscription on fun store id => do
    return .invalidated (← onProcess (·.invalidate store id))
  | .results on query => withHandle on fun h => do
    match h with
    | .results records =>
      match queryAnswer records query with
      | some a => return some a
      | none => panic
    | _ => return none
  | .emptyResults _ as => answerRecords (some as) (.ok [])
  | _ => return .misuse "the request may have to wait"

/-- The answer of a request that was begun; its name is free again. -/
def answerReady (name : String) (a : Answer) : Run Answer := do
  let _ ← unbind name
  return .ready a

def runWith (nested : Request → Run Answer) : Request → Run Answer
  | .begin as r => do
    match ← prepare r with
    | .answer a => answerReady as a
    | .immediate => answerReady as (← nested r)
    | .operation op =>
      match ← advance nested op with
      | .done a => answerReady as a
      | .waiting op =>
        bind as (.operation op)
        return .pending
  | .poll on => do
    match (← get).handle? on with
    | none => return .gone
    | some (.operation op) =>
      modify (·.replace on .spent)
      match ← advance nested op with
      | .done a => answerReady on a
      | .waiting op =>
        modify (·.replace on (.operation op))
        return .pending
    | some .spent => panic
    | some _ => return .misuse "the handle is no operation"
  | r => do
    match ← prepare r with
    | .answer a => return a
    | .immediate => runImmediate r
    | .operation op =>
      match ← advance nested op with
      | .done answer => return answer
      | .waiting op =>
        updateProcess op.abandon
        return .blocked

/-- Runs a request with a bound on nesting. What nothing refers to afterwards is dropped. -/
def run : Nat → Request → Run Answer
  | 0, _ => return .misuse "requests nest too deeply"
  | n + 1, r => do
    let answer ← runWith (run n) r
    modify settle
    return answer

/-- Runs a request that is not inside another one. A panic is its answer. -/
def runOuter (bound : Nat) (r : Request) : StateM Session Answer := do
  match ← run bound r with
  | .ok answer => return answer
  | .error _ =>
    modify settle
    return .panicked

def runAll (requests : List Request) : List Answer :=
  let bound := (requests.map Request.size).sum + 1
  (requests.mapM (runOuter bound) |>.run {}).1

end RecordStore.Session
