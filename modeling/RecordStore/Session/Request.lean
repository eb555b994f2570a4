import RecordStore.Store.Basic

/-!
What can be asked of a session, and what it answers. Handles have names. Arguments are JSON, since
which model they are for may depend on a handle.
-/
namespace RecordStore

inductive Call where
  | create (values : Values)
  | add (object : Values)
  | resolve (object : Values)
  | modify (object changes : Values)
  | delete (object : Values)
  | objects
  /-- Shows the reference to the stored counterpart of a record. -/
  | reference (object : Values)

inductive Query where
  | get (index : Nat)
  /-- A record that has to be there. -/
  | index (index : Nat)
  | first
  | last
  | length
  | all

mutual

inductive Request where
  | openStore (as : String) (configuration : Configuration)
  | openActor (as : String) (model : Model) (configuration : Configuration) (isGenerated : Bool)
  | configuration (on : String)
  | clone (on as : String)
  | drop (on : String)
  | debug (on : String)
  | subscriptions (on : String)
  | state (on : String)
  | close (on : String)
  | list (on : String) (model : Option Model) (as : Option String)
  | create (on : String) (arguments : Values)
  | update (on : String) (object changes : Values)
  | delete (on : String) (object : Values)
  | observe (on : String) (model : Option Model) (as : String) (isReachable : Bool)
  | write (on : String) (steps : List Step)
  | createMember (model : Model) (arguments : Values)
  | updateMember (model : Model) (object changes : Values)
  | deleteMember (model : Model) (object : Values)
  | listMember (model : Model) (as : Option String)
  | observeMember (model : Model) (as : String) (isReachable : Bool)
  | receive (on : String)
  | cancel (on : String)
  | token (on as : String)
  | tokenState (on : String)
  | invalidate (on : String)
  | results (on : String) (query : Query)
  | emptyResults (model : Model) (as : String)
  /-- Starts a request and keeps it if it has to wait. -/
  | begin (as : String) (request : Request)
  /-- Lets a request that was kept go on. -/
  | poll (on : String)

/-- A step of a write. A failure ends the write unless it is caught. -/
inductive Step where
  | call (model : Model) (call : Call) (isCaught : Bool)
  | fail (isCaught : Bool)
  | panic
  /-- Runs a request in the middle of the transaction. -/
  | run (request : Request)

end

/-- The answer to a request or to a step of a write. -/
inductive Answer where
  | opened
  | configuration (configuration : Configuration)
  | cloned
  | dropped (wasBound : Bool)
  | text (text : String)
  | count (count : Nat)
  | state (isClosed : Bool)
  | records (records : List Record)
  | record (record : Record)
  | added
  | deleted
  | subscription (id : Nat)
  | received (received : Received)
  | cancelled
  | tokenState (subscription : Nat) (isInvalidated : Bool)
  | invalidated (ended : Bool)
  | item (record : Option Record)
  | length (length : Nat)
  | items (records : List Record)
  | committed (steps : List Answer)
  | failed (error : StoreError)
  /-- A write failed after some steps. -/
  | failedWrite (error : StoreError) (steps : List Answer)
  /-- The record after a member operation, and the error if it failed. -/
  | member (record : Record) (error : Option StoreError)
  | ready (answer : Answer)
  | pending
  | blocked
  | gone
  | panicked
  /-- The request makes no sense for the handle it names. -/
  | misuse (message : String)
  deriving Inhabited

mutual

def Request.size : Request → Nat
  | .write _ steps => stepsSize steps + 1
  | .begin _ r => r.size + 1
  | _ => 1

def stepSize : Step → Nat
  | .run r => r.size
  | _ => 0

def stepsSize : List Step → Nat
  | [] => 0
  | s :: rest => stepSize s + stepsSize rest

end

end RecordStore
