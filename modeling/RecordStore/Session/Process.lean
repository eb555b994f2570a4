import RecordStore.Session.Lock
import RecordStore.Store.Basic

/-!
The stores that are open and the actors on them. Configurations with one identifier open one
store. It is kept once it was opened by a configuration that is not in memory; until then it lives
as long as something refers to it, and so does an actor.
-/
namespace RecordStore

/-- A store that was opened, with its writer lock. -/
structure OpenStore where
  store : Store
  isKept : Bool := false
  isAlive : Bool := true
  writer : Lock := {}

/-- An actor runs the operations issued through it one at a time. -/
structure Actor where
  model : Model
  store : Nat
  configuration : Configuration
  isClosed : Bool := false
  isAlive : Bool := true
  /-- The subscriptions that it started and that had not ended when it last started one. -/
  tokens : List Nat := []
  serial : Lock := {}

/-- All that was opened, in order; stores and actors are referred to by their place. -/
structure Process where
  stores : List OpenStore
  actors : List Actor := []

/-- What keeps a store or an actor alive. -/
inductive Root where
  | store (place : Nat)
  | actor (place : Nat)
  deriving DecidableEq, Repr

namespace Process

def initial : Process := ⟨[{ store := { identifier := "default" }, isKept := true }], []⟩

def updateStore (p : Process) (place : Nat) (f : OpenStore → OpenStore) : Process :=
  { p with stores := p.stores.modify place f }

def updateActor (p : Process) (place : Nat) (f : Actor → Actor) : Process :=
  { p with actors := p.actors.modify place f }

def store? (p : Process) (place : Nat) : Option Store := (p.stores[place]?).map OpenStore.store

def setStore (p : Process) (place : Nat) (s : Store) : Process :=
  p.updateStore place ({ · with store := s })

def find? (p : Process) (identifier : String) : Option Nat :=
  p.stores.findIdx? fun o => o.isAlive && o.store.identifier == identifier

def openStore (p : Process) (c : Configuration) : Nat × Process :=
  match p.find? c.identifier with
  | some place => (place, p.updateStore place fun o => { o with isKept := o.isKept || !c.inMemory })
  | none =>
    (p.stores.length, { p with stores := p.stores ++
      [{ store := { identifier := c.identifier }, isKept := !c.inMemory }] })

def openActor (p : Process) (m : Model) (c : Configuration) : Nat × Process :=
  let (store, p) := p.openStore c
  (p.actors.length,
    { p with actors := p.actors ++ [{ model := m, store := store, configuration := c }] })

def observer? (p : Process) (store subscription : Nat) : Option Observer :=
  (p.store? store).bind (·.observer? subscription)

def invalidate (p : Process) (store subscription : Nat) : Bool × Process :=
  match p.store? store with
  | none => (false, p)
  | some s =>
    let (ended, s) := s.invalidate subscription
    (ended, p.setStore store s)

def invalidateAll (p : Process) (store : Nat) (subscriptions : List Nat) : Process :=
  subscriptions.foldl (fun p id => (p.invalidate store id).2) p

/-- Closes an actor and ends the subscriptions it started; a closed one stays as it is. -/
def close (p : Process) (place : Nat) : Process :=
  match p.actors[place]? with
  | none => p
  | some a =>
    if a.isClosed then p
    else
      (p.updateActor place ({ · with isClosed := true, tokens := [] })).invalidateAll a.store
        a.tokens

def remember (p : Process) (place subscription : Nat) : Process :=
  p.updateActor place fun a =>
    let isLive (id : Nat) : Bool :=
      match p.observer? a.store id with
      | some o => !o.isInvalidated
      | none => false
    { a with tokens := a.tokens.filter isLive ++ [subscription] }

def dropActor (p : Process) (place : Nat) : Process :=
  match p.actors[place]? with
  | none => p
  | some a =>
    if a.isAlive then
      (p.updateActor place ({ · with isAlive := false, tokens := [] })).invalidateAll a.store
        a.tokens
    else p

/-- Discards a store that nothing refers to. Its observers are sent nothing more. -/
def dropStore (p : Process) (place : Nat) : Process :=
  p.updateStore place fun o => { o with isAlive := false, store := o.store.discard }

def isStoreReferred (p : Process) (roots : List Root) (place : Nat) : Bool :=
  roots.contains (.store place) || p.actors.any fun a => a.isAlive && a.store == place

def collect (p : Process) (roots : List Root) : Process :=
  let p := (List.range p.actors.length).foldl
    (fun p place => if roots.contains (.actor place) then p else p.dropActor place) p
  (List.range p.stores.length).foldl (fun p place =>
    match p.stores[place]? with
    | some o =>
      if o.isAlive && !o.isKept && !p.isStoreReferred roots place then p.dropStore place else p
    | none => p) p

end Process

end RecordStore
