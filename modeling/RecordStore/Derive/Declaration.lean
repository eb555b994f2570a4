import RecordStore.Derive.Error

/-!
A declaration with the markers of its fields read. Only a struct with named fields has members;
the fields of any other shape are not looked at, so their markers may be anything.
-/
namespace RecordStore

/-- A named field and its marker; a field without one is transient. -/
structure Member where
  name : String
  type : TypeExpr
  marker : Option Marker

structure Declaration where
  name : String
  visibility : List Token
  isGeneric : Bool
  shape : ItemShape
  members : List Member

namespace Member

def isPersisted (m : Member) : Bool := m.marker.isSome

def ofField (f : NamedField) : Except ExpansionError Member :=
  match Marker.ofAttributes f.attributes with
  | .ok marker => .ok ⟨f.name, f.type, marker⟩
  | .error errors => .error (.invalidAttribute errors)

def ofFields : List NamedField → Except ExpansionError (List Member)
  | [] => .ok []
  | f :: rest => do
    let m ← ofField f
    return m :: (← ofFields rest)

end Member

namespace Declaration

def ofItem (i : Item) : Except ExpansionError Declaration :=
  (Member.ofFields i.fields).map (⟨i.name, i.visibility, i.isGeneric, i.shape, ·⟩)

/-- The members, if the declaration can be a model at all. The shape is judged before the generic
parameters. -/
def requireModel (d : Declaration) : Except ExpansionError (List Member) :=
  if d.shape ≠ .struct then .error (.structuralMismatch d.name d.shape)
  else if d.isGeneric then .error (.unsupportedGenerics d.name)
  else .ok d.members

def transient (d : Declaration) : List String :=
  (d.members.filter (!·.isPersisted)).map Member.name

end Declaration

end RecordStore
