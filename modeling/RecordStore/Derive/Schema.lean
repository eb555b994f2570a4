import RecordStore.Derive.Declaration
import RecordStore.Derive.SelfType
import RecordStore.Derive.Signature

/-!
The schema of a declaration: its persisted fields in order, each with the name it is stored under
and the signature of its type. At most one of them is the primary key.
-/
namespace RecordStore

/-- A persisted field. The stored name has no raw marker; the type has `Self` named. -/
structure PersistedField where
  ident : String
  name : String
  type : TypeExpr
  signature : Signature
  primaryKey : Bool
  indexed : Bool

namespace PersistedField

def ofMember (model : String) (m : Member) (marker : Marker) :
    Except ExpansionError PersistedField :=
  match SelfType.name model m.type with
  | .error path => .error (.unsupportedType path.text m.name)
  | .ok type => do
    let signature ← Signature.resolve m.name type
    return ⟨m.name, Token.unraw m.name, type, signature, marker.primaryKey, marker.indexed⟩

end PersistedField

namespace Schema

/-- The persisted fields of members that come after a primary key, if one was found. Within a
field its type is judged before its key. -/
def ofMembers (model : String) : Option String → List Member →
    Except ExpansionError (List PersistedField)
  | _, [] => .ok []
  | key, m :: rest =>
    match m.marker with
    | none => ofMembers model key rest
    | some marker => do
      let field ← PersistedField.ofMember model m marker
      match key, marker.primaryKey with
      | some first, true => throw (.duplicatePrimaryKey m.name first)
      | _, isKey =>
        return field :: (← ofMembers model (if isKey then some m.name else key) rest)

/-- The schema of a declaration; one without members has none. -/
def ofDeclaration (d : Declaration) : Except ExpansionError (List PersistedField) :=
  ofMembers d.name none d.members

end Schema

end RecordStore
