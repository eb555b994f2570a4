import RecordStore.Store.Table

/-!
Observers of a store. An observer is sent the records of its model as they are when it starts and
then what every commit changed, and takes the changes one by one. Its token is shared with whoever
may end it, and ends it at most once.
-/
namespace RecordStore

/-- A change as an observer receives it. -/
inductive Change where
  | initial (records : List Record)
  | update (records : List Record) (indices : ChangeIndices)
  /-- The records could not be read; nothing follows. -/
  | error (error : StoreError)

namespace Change

def records? : Change → Option (List Record)
  | .initial records => some records
  | .update records _ => some records
  | .error _ => none

end Change

/-- One observer of a store. -/
structure Observer where
  subscription : Nat
  model : Model
  /-- The changes that were sent and not yet received. -/
  queue : List Change
  /-- Whether what is sent arrives. -/
  isReachable : Bool := true
  /-- Whether the store still sends changes to it. -/
  isSubscribed : Bool := true
  isInvalidated : Bool := false
  isFinished : Bool := false

/-- What an observer gets when it asks for the next change. -/
inductive Received where
  | pending
  | ended
  | change (change : Change)

namespace Observer

def start (subscription : Nat) (m : Model) (records : List Record) (isReachable : Bool) :
    Observer where
  subscription := subscription
  model := m
  queue := if isReachable then [.initial records] else []
  isReachable := isReachable

/-- Sends a change. The store stops sending after one that does not arrive and after an error. -/
def send (o : Observer) (c : Change) : Observer :=
  { o with
    queue := if o.isReachable then o.queue ++ [c] else o.queue
    isSubscribed := o.isReachable && c.records?.isSome }

def changeOf (m : Model) (t : Table) (indices : ChangeIndices) : Change :=
  match t.records m with
  | .ok records => .update records indices
  | .error e => .error e

/-- Sends the change for a new version of a table, if the observer is subscribed to it. -/
def notify (typeName : String) (t : Table) (indices : ChangeIndices) (o : Observer) : Observer :=
  if o.isSubscribed && o.model.typeName == typeName then o.send (changeOf o.model t indices) else o

def invalidate (o : Observer) : Observer :=
  if o.isInvalidated then o else { o with isInvalidated := true, isSubscribed := false }

def finish (o : Observer) : Observer := { o.invalidate with isFinished := true }

def cancel (o : Observer) : Observer := { o.finish with queue := [] }

/-- Takes the next change. An observer to which nothing can be sent any more ends when nothing is
left, and after an error. -/
def receive (o : Observer) : Received × Observer :=
  if o.isFinished then (.ended, o)
  else
    match o.queue with
    | c :: rest =>
      let o := { o with queue := rest }
      (.change c, if c.records?.isSome then o else o.finish)
    | [] => if o.isReachable && o.isSubscribed then (.pending, o) else (.ended, o.finish)

end Observer

end RecordStore
