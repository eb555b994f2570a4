import RecordStore.Store.Configuration
import RecordStore.Store.Observer
import RecordStore.Store.Transaction

/-!
A store: its tables and its observers. A write commits all that its transaction did or nothing;
the observers of every table that changed are then told, in the order they came. Subscriptions are
numbered from one and numbers are not used again.
-/
namespace RecordStore

/-- A store with every observer it has had, in the order of their subscriptions. -/
structure Store where
  identifier : String
  tables : Tables := []
  observers : List Observer := []

namespace Store

def objects (s : Store) (m : Model) : Except StoreError (List Record) :=
  (s.tables.table m.typeName).records m

def subscriptions (s : Store) : List Nat :=
  (s.observers.filter (·.isSubscribed)).map Observer.subscription

def nextSubscription (s : Store) : Nat := s.observers.length + 1

def observer? (s : Store) (subscription : Nat) : Option Observer :=
  s.observers.find? (·.subscription == subscription)

def updateObserver (s : Store) (subscription : Nat) (f : Observer → Observer) : Store :=
  { s with observers := s.observers.map fun o => if o.subscription = subscription then f o else o }

def notify (before : Tables) (observers : List Observer) (committed : String × Table) :
    List Observer :=
  let indices := committed.2.changesSince (before.table committed.1)
  if indices.isEmpty then observers
  else observers.map (Observer.notify committed.1 committed.2 indices)

def begin (s : Store) : Transaction := { base := s.tables }

def commit (s : Store) (t : Transaction) : Store :=
  { s with
    tables := t.staged.foldl (fun tables c => tables.set c.1 c.2) s.tables
    observers := t.staged.foldl (notify s.tables) s.observers }

def transact {α : Type} (s : Store) (body : Transact α) : Except StoreError α × Store :=
  match body.run.run s.begin with
  | (.ok a, t) => (.ok a, s.commit t)
  | (.error e, _) => (.error e, s)

def write {α : Type} (s : Store) (c : Configuration) (body : Transact α) :
    Except StoreError α × Store :=
  if c.readOnly then (.error (.readOnly s.identifier), s) else s.transact body

/-- Starts an observer and gives its subscription. Nothing is started if the records there are
cannot be read. -/
def observe (s : Store) (m : Model) (isReachable : Bool) : Except StoreError Nat × Store :=
  match s.objects m with
  | .error e => (.error e, s)
  | .ok records =>
    let id := s.nextSubscription
    (.ok id, { s with observers := s.observers ++ [.start id m records isReachable] })

def receive (s : Store) (subscription : Nat) : Received × Store :=
  match s.observer? subscription with
  | none => (.ended, s)
  | some o =>
    let (received, o) := o.receive
    (received, s.updateObserver subscription fun _ => o)

def invalidate (s : Store) (subscription : Nat) : Bool × Store :=
  match s.observer? subscription with
  | none => (false, s)
  | some o => (!o.isInvalidated, s.updateObserver subscription Observer.invalidate)

def cancel (s : Store) (subscription : Nat) : Store :=
  s.updateObserver subscription Observer.cancel

def discard (s : Store) : Store :=
  { s with observers := s.observers.map fun o => { o with isSubscribed := false } }

end Store

end RecordStore
