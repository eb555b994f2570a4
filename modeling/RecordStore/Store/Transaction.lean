import RecordStore.Store.Table

/-!
Write transactions. A transaction works on copies of the tables that it writes to and reads the
others as they were when it began; nothing of it is visible outside before it is committed. Its
operations may fail, and a failure leaves the transaction able to go on.
-/
namespace RecordStore

structure Transaction where
  base : Tables
  staged : Tables := []

/-- An operation of a transaction. The transaction is kept where the operation fails. -/
abbrev Transact := ExceptT StoreError (StateM Transaction)

namespace Transaction

def table? (t : Transaction) (typeName : String) : Option Table :=
  (t.staged.get? typeName) <|> (t.base.get? typeName)

def writable (t : Transaction) (typeName : String) : Table :=
  (t.table? typeName).getD {}

def put (t : Transaction) (typeName : String) (table : Table) : Transaction :=
  { t with staged := t.staged.set typeName table }

end Transaction

namespace Transact

/-- Replaces a table. Where that fails the table is staged as it was. -/
def update (typeName : String) (f : Table → Except StoreError Table) : Transact Unit := do
  let table := (← get).writable typeName
  modify (·.put typeName table)
  let table ← f table
  modify (·.put typeName table)

def locate (m : Model) (i : Identity) : Transact Nat := do
  match ((← get).table? m.typeName).bind (·.locate i) with
  | some row => return row
  | none => throw (.objectNotFound m.typeName)

def create (m : Model) (values : Values) : Transact Record := do
  let record ← m.fromValues values
  let stored ← record.toValues
  update m.typeName (·.insert m.typeName m.primaryKey? stored)
  return record

/-- Stores a record. It is not read back, so it may be one that cannot be. -/
def add (m : Model) (record : Record) : Transact Unit := do
  let stored ← record.toValues
  update m.typeName (·.insert m.typeName m.primaryKey? stored)

def resolve (m : Model) (i : Identity) : Transact Record := do
  let row ← locate m i
  match ((← get).table? m.typeName).bind (·.row? row) with
  | some values => m.fromValues values
  | none => throw (.objectNotFound m.typeName)

def modifyRecord (m : Model) (i : Identity) (change : Record → Record) : Transact Record := do
  let row ← locate m i
  let record := change (← resolve m i)
  let stored ← record.toValues
  update m.typeName (·.replace m.typeName m.primaryKey? row stored)
  return record

def delete (m : Model) (i : Identity) : Transact Unit := do
  let row ← locate m i
  update m.typeName fun t => .ok (t.remove m.primaryKey? row)

def objects (m : Model) : Transact (List Record) := do
  match (← get).table? m.typeName with
  | some t => t.records m
  | none => return []

end Transact

end RecordStore
