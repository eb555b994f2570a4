import RecordStore.Field.Decoding
import RecordStore.Field.Encoding
import RecordStore.Store.Error

/-!
Models and their records. A model names the type of its records and lists their persisted fields;
a record also has transient fields, which are not stored and come back at their default. Storing a
record keeps its persisted fields in the order of the model.
-/
namespace RecordStore

/-- A persisted field of a model. -/
structure ModelField where
  name : String
  type : FieldType
  isPrimaryKey : Bool := false
  isIndexed : Bool := false

/-- A field that is not stored. -/
structure TransientField where
  name : String
  type : FieldType
  default : Data

/-- The records that a model stores: those with its fields, or any map of values as it is. -/
inductive RecordForm where
  | fields
  | verbatim
  deriving DecidableEq, Repr

structure Model where
  /-- The type name, which is also the name of the table. -/
  typeName : String
  fields : List ModelField
  transient : List TransientField := []
  form : RecordForm := .fields

/-- A record: its persisted fields in order, and its transient ones. -/
structure Record where
  fields : List (String × Data)
  transient : List (String × Data) := []

def setField (name : String) (d : Data) : List (String × Data) → List (String × Data)
  | [] => [(name, d)]
  | (n, e) :: rest => if n == name then (n, d) :: rest else (n, e) :: setField name d rest

/-- Reads a persisted field. An absent one is read as null. -/
def Values.field (values : Values) (typeName name : String) (t : FieldType) :
    Except StoreError Data :=
  match values.get? name with
  | some v =>
    match Data.decode v t with
    | .ok d => .ok d
    | .error e => .error (.serialization e)
  | none =>
    match Data.decode .null t with
    | .ok d => .ok d
    | .error _ => .error (.missingField typeName name)

def Data.stored (d : Data) : Except StoreError Json :=
  match d.encode with
  | .ok v => .ok v
  | .error e => .error (.serialization e)

/-- How a stored record is found again: by its primary key, or by all that it stores. -/
inductive Identity where
  | primaryKey (value : Json)
  | snapshot (values : Values)
  deriving Repr

namespace Record

def toValues (r : Record) : Except StoreError Values :=
  match Data.encodeFields r.fields with
  | .ok values => .ok values
  | .error e => .error (.serialization e)

def get? (r : Record) (name : String) : Option Data := r.fields.lookup name

def set (r : Record) (name : String) (d : Data) : Record :=
  if (r.transient.lookup name).isSome then { r with transient := setField name d r.transient }
  else { r with fields := setField name d r.fields }

def setAll (r : Record) (changes : List (String × Data)) : Record :=
  changes.foldl (fun r c => r.set c.1 c.2) r

def adopt (r other : Record) : Record := { r with fields := other.fields }

end Record

namespace Model

def isDerived (m : Model) : Bool := m.form == .fields

/-- Only for a derived model is there an actor of its own, besides the one for any model. -/
def offers (m : Model) (isGenerated : Bool) : Bool := m.isDerived || !isGenerated

def primaryKey? (m : Model) : Option String :=
  (m.fields.find? (·.isPrimaryKey)).map ModelField.name

def defaults (m : Model) : List (String × Data) := m.transient.map fun f => (f.name, f.default)

def readFields (typeName : String) (values : Values) :
    List ModelField → Except StoreError (List (String × Data))
  | [] => .ok []
  | f :: rest => do
    let d ← values.field typeName f.name f.type
    return (f.name, d) :: (← readFields typeName values rest)

def fromValues (m : Model) (values : Values) : Except StoreError Record :=
  match m.form with
  | .fields => (readFields m.typeName values m.fields).map (⟨·, m.defaults⟩)
  | .verbatim => .ok ⟨values.map fun (name, v) => (name, .json v), m.defaults⟩

def identity (m : Model) (r : Record) : Except StoreError Identity :=
  match r.toValues with
  | .error e => .error e
  | .ok values =>
    match m.primaryKey? with
    | some field => .ok (.primaryKey ((values.get? field).getD .null))
    | none => .ok (.snapshot values)

end Model

namespace Identity

def text : Identity → String
  | .primaryKey v => "PrimaryKey(" ++ v.structural ++ ")"
  | .snapshot values =>
    "Snapshot(\x7b" ++ ", ".intercalate (Json.structuralEntries values) ++ "\x7d)"

def referenceText (i : Identity) : String :=
  "ThreadSafeReference \x7b identity: " ++ i.text ++ " \x7d"

end Identity

end RecordStore
