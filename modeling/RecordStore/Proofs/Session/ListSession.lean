import RecordStore.Proofs.Session.Operation
import RecordStore.Proofs.Store.ListStore
import RecordStore.Session.Run

/-!
Sessions on a store of plain lists. A handle is no more than what it was opened with, a call is done
at once on the list of its model, and nothing is ever opened, locked or dropped. A transaction is
done on the lists themselves, which are put back if it fails.
-/
namespace RecordStore

/-- A handle, by what it was opened with. -/
inductive Client where
  | store (configuration : Configuration)
  | actor (model : Model) (configuration : Configuration) (isGenerated : Bool)

/-- A call on the list of its model. -/
structure ListCall where
  perform : List Values → Except StoreError (Answer × List Values)
  failure : StoreError → Answer

namespace ListCall

def answering {α : Type} (answer : α → Answer)
    (perform : List Values → Except StoreError (α × List Values)) (rows : List Values) :
    Except StoreError (Answer × List Values) :=
  (perform rows).map fun result => (answer result.1, result.2)

def of {α : Type} (perform : List Values → Except StoreError (α × List Values))
    (answer : α → Answer) (failure : StoreError → Answer) : ListCall where
  perform := answering answer perform
  failure := failure

/-- Creates a record from arguments. -/
def create (arguments : Values) (m : Model) : Except Answer ListCall := do
  let r ← Session.argument (m.recordArgument arguments)
  let values ← r.toValues.mapError .failed
  return .of (ListStore.create m values) .record .failed

/-- Changes the counterpart of a record, and the record itself if it is a member's. -/
def update (object changes : Values) (isMember : Bool) (m : Model) : Except Answer ListCall := do
  let r ← Session.argument (m.recordArgument object)
  let failure (e : StoreError) : Answer := if isMember then .member r (some e) else .failed e
  let wanted ← r.toValues.mapError failure
  let changes ← Session.argument (m.changesArgument changes)
  return .of (ListStore.update m wanted changes)
    (fun new => if isMember then .member { r with fields := new.fields } none else .record new)
    failure

def delete (object : Values) (m : Model) : Except Answer ListCall := do
  let r ← Session.argument (m.recordArgument object)
  let wanted ← r.toValues.mapError .failed
  return .of (ListStore.delete m wanted) (fun _ => .deleted) .failed

/-- What a call answers and makes of a list, through a handle that may be read-only. -/
def run (call : ListCall) (c : Configuration) (rows : List Values) : Answer × List Values :=
  if c.readOnly then (call.failure (.readOnly c.identifier), rows)
  else
    match call.perform rows with
    | .ok result => result
    | .error e => (call.failure e, rows)

def inside (m : Model) :
    Call → Except CodecError (List Values → Except StoreError (Answer × List Values))
  | .create values => .ok (answering .record (ListStore.create m values))
  | .add object => do
    let r ← m.recordArgument object
    return fun rows => do answering (fun _ => .added) (ListStore.add m (← r.toValues)) rows
  | .resolve object => do
    let r ← m.recordArgument object
    return fun rows => do answering .record (ListStore.resolve m (← r.toValues)) rows
  | .modify object changes => do
    let r ← m.recordArgument object
    let changes ← m.changesArgument changes
    return fun rows => do answering .record (ListStore.update m (← r.toValues) changes) rows
  | .delete object => do
    let r ← m.recordArgument object
    return fun rows => do answering (fun _ => .deleted) (ListStore.delete m (← r.toValues)) rows
  | .objects =>
    .ok (answering .records fun rows => (ListStore.list m rows).map fun records => (records, rows))
  | .reference object => do
    let r ← m.recordArgument object
    return fun rows => do return (.text (← m.identity r).referenceText, rows)

end ListCall

/-- How the steps of a transaction ended, what they answered and the lists that they left. -/
abbrev Lists.Ending := Session.StepsOutcome × List Answer × Lists

def Lists.Ending.after (ending : Lists.Ending) (a : Answer) : Lists.Ending :=
  (ending.1, a :: ending.2.1, ending.2.2)

/-- Does the steps of a transaction. A failure that is not caught ends it. -/
def Lists.run (lists : Lists) : List Step → Lists.Ending
  | [] => (.finished, [], lists)
  | .call m call isCaught :: rest =>
    match ListCall.inside m call with
    | .error e => (lists.run rest).after (.misuse e.message)
    | .ok perform =>
      let result := perform (lists m.typeName)
      let lists := lists.after m.typeName result
      match result with
      | .ok (a, _) => (lists.run rest).after a
      | .error e =>
        if isCaught then (lists.run rest).after (.failed e)
        else (.failed e, [.failed e], lists)
  | .fail isCaught :: rest =>
    if isCaught then (lists.run rest).after (.failed .invalidated)
    else (.failed .invalidated, [.failed .invalidated], lists)
  | .panic :: _ | .run _ :: _ => (.finished, [], lists)

/-- What a transaction answers, and the lists after it: all steps were done, or none. -/
def Lists.write (lists : Lists) (steps : List Step) : Answer × Lists :=
  match lists.run steps with
  | (.finished, answers, left) => (.committed answers, left)
  | (.failed e, answers, _) => (.failedWrite e answers, lists)

/-- Named handles on a store of lists. -/
structure ListSession where
  clients : List (String × Client) := []
  lists : Lists := fun _ => []

def Step.isPlain : Step → Bool
  | .call .. | .fail _ => true
  | .panic | .run _ => false

/-- A request that opens, clones, creates, updates, deletes, writes or lists, on one identifier. -/
def Request.IsOn (identifier : String) : Request → Prop
  | .openStore _ c | .openActor _ _ c _ => c.identifier = identifier
  | .clone .. | .create .. | .update .. | .delete .. => True
  | .write _ steps => steps.all Step.isPlain = true
  | .list _ _ as => as = none
  | .createMember .. | .updateMember .. | .deleteMember .. =>
    ({} : Configuration).identifier = identifier
  | .listMember _ as => ({} : Configuration).identifier = identifier ∧ as = none
  | _ => False

def Step.model? : Step → Option Model
  | .call m _ _ => some m
  | _ => none

/-- The models that a request opens an actor for or calls in a transaction. -/
def Request.models : Request → List Model
  | .openActor _ m _ _ => [m]
  | .createMember m _ | .updateMember m _ _ | .deleteMember m _ | .listMember m _ => [m]
  | .write _ steps => steps.filterMap Step.model?
  | _ => []

namespace ListSession

def bind (s : ListSession) (name : String) (c : Client) : ListSession :=
  { s with clients := s.clients.filter (·.1 != name) ++ [(name, c)] }

def call (s : ListSession) (m : Model) (c : Configuration) :
    Except Answer ListCall → Answer × ListSession
  | .error a => (a, s)
  | .ok call =>
    let (a, rows) := call.run c (s.lists m.typeName)
    (a, { s with lists := Function.update s.lists m.typeName rows })

def misused : Answer := .misuse "the handle does not support the request"

/-- Writes through a handle that may be read-only. -/
def write (s : ListSession) (c : Configuration) (steps : List Step) : Answer × ListSession :=
  if c.readOnly then (.failedWrite (.readOnly c.identifier) [], s)
  else ((s.lists.write steps).1, { s with lists := (s.lists.write steps).2 })

def ofModel (s : ListSession) (m : Model) (result : Answer × ListSession) : Answer × ListSession :=
  if m.isDerived then result else (Session.unavailable, s)

def onGenerated (s : ListSession) (on : String) (call : Model → Except Answer ListCall) :
    Answer × ListSession :=
  match s.clients.lookup on with
  | none => (.gone, s)
  | some (.actor m c true) => s.call m c (call m)
  | some _ => (misused, s)

def list (s : ListSession) (m : Model) : Answer :=
  match ListStore.list m (s.lists m.typeName) with
  | .ok records => .records records
  | .error e => .failed e

/-- What a request answers and makes of the session. -/
def answer (s : ListSession) : Request → Answer × ListSession
  | .openStore as c => (.opened, s.bind as (.store c))
  | .openActor as m c isGenerated =>
    if m.offers isGenerated then (.state false, s.bind as (.actor m c isGenerated))
    else (Session.unavailable, s)
  | .clone on as =>
    match s.clients.lookup on with
    | none => (.gone, s)
    | some c => (.cloned, s.bind as c)
  | .create on arguments => s.onGenerated on (ListCall.create arguments)
  | .update on object changes => s.onGenerated on (ListCall.update object changes false)
  | .delete on object => s.onGenerated on (ListCall.delete object)
  | .list on model _ =>
    match s.clients.lookup on, model with
    | none, _ => (.gone, s)
    | some (.actor m _ _), _ => (s.list m, s)
    | some (.store _), some m => (s.list m, s)
    | some (.store _), none => (misused, s)
  | .write on steps =>
    match s.clients.lookup on with
    | none => (.gone, s)
    | some (.actor _ c false) | some (.store c) => s.write c steps
    | some (.actor _ _ true) => (misused, s)
  | .createMember m arguments => s.ofModel m (s.call m {} (ListCall.create arguments m))
  | .updateMember m object changes =>
    s.ofModel m (s.call m {} (ListCall.update object changes true m))
  | .deleteMember m object => s.ofModel m (s.call m {} (ListCall.delete object m))
  | .listMember m _ => s.ofModel m (s.list m, s)
  | _ => (misused, s)

/-- The answers to requests that are made one after the other. -/
def answers : ListSession → List Request → List Answer
  | _, [] => []
  | s, r :: rest => (s.answer r).1 :: answers (s.answer r).2 rest

end ListSession

end RecordStore
