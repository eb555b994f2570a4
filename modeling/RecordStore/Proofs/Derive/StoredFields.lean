import RecordStore.Proofs.Derive.Hygiene
import RecordStore.Proofs.Derive.Verdict

/-!
What an expansion stores of a declaration. The table of the schema, the encoder, the decoder and the
operation that creates a record go through the marked fields in the order of the declaration and
call each of them the same; the decoder initialises every field once. Nothing else about the fields
matters: not how visible they are, not their other attributes, and not the types of those that are
not marked.
-/
namespace RecordStore

open Token Code

namespace Code

def Term.ident? : Term → Option String
  | .name s => some s
  | .field _ s => some s
  | _ => none

/-- What a statement puts into a collection of values: the identifier whose value it encodes, and
the name it is stored under. -/
def Statement.insertion? : Statement → Option (String × String)
  | .evaluate (.method _ "insert" _ [.call _ [.text stored] _, .propagate (.call _ [.borrow t] _)] _) =>
    t.ident?.map (·, stored)
  | _ => none

def Method.initialised (m : Method) : List (String × Term) :=
  match m.value with
  | some (.call _ [.record _ fields] _) => fields
  | _ => []

def Term.readName? : Term → Option String
  | .propagate (.call _ [_, _, .text stored] _) => some stored
  | _ => none

def Term.entryName? : Term → Option String
  | .call _ (.text stored :: _) _ => some stored
  | _ => none

def Method.insertions (m : Method) : List (String × String) :=
  m.body.filterMap Statement.insertion?

/-- The fields that a method reads from stored values, with the names they are stored under. -/
def Method.reads (m : Method) : List (String × String) :=
  m.initialised.filterMap fun f => f.2.readName?.map (f.1, ·)

end Code

namespace NamedField

def isMarked (f : NamedField) : Bool := f.marker?.isSome

/-- The identifier of a field and the name it is stored under. -/
def stored (f : NamedField) : String × String := (f.name, unraw f.name)

/-- Fields between which an expansion cannot tell: they are called and marked the same, and have the
same type if they are marked. -/
structure Alike (f g : NamedField) : Prop where
  name : f.name = g.name
  markers : f.attributes.filter Marker.isMarker = g.attributes.filter Marker.isMarker
  type : f.isMarked = true → f.type = g.type

end NamedField

/-- Items that differ at most in fields that are alike. -/
structure Item.Alike (i j : Item) : Prop where
  visibility : i.visibility = j.visibility
  name : i.name = j.name
  isGeneric : i.isGeneric = j.isGeneric
  shape : i.shape = j.shape
  fields : List.Forall₂ NamedField.Alike i.fields j.fields

/-- Whether the code for a model stores the marked fields of an item. -/
structure ModelContext.Stores (c : ModelContext) (i : Item) : Prop where
  model : c.model = i.name
  /-- The schema lists the marked fields in order. -/
  schema : List.Forall₂ (fun f p => p.Describes i.name f.member) (i.fields.filter NamedField.isMarked)
    c.schema
  flags : c.schema.map (fun p => some ⟨p.primaryKey, p.indexed⟩) =
    (i.fields.filter NamedField.isMarked).map NamedField.marker?
  keys : (c.schema.filter PersistedField.primaryKey).length ≤ 1
  /-- Every field is persisted or transient, and not both. -/
  partition : (c.idents ++ c.transient).Perm (i.fields.map NamedField.name)
  initialised : (c.fromValues.initialised.map Prod.fst).Perm (i.fields.map NamedField.name)
  distinct : (i.fields.map fun f => unraw f.name).Nodup →
    (c.schema.map PersistedField.name).Nodup
  /-- The implementation holds the table of the schema, the encoder and the decoder. -/
  record : ∃ start typeName type table, c.record = start ++ [.group .brace (typeName ++
      ModelContext.constant "SCHEMA" type (.borrow (.array table)) ++ c.toValues.tokens ++
        c.fromValues.tokens)] ∧
    table.map Term.entryName? =
      ((i.fields.filter NamedField.isMarked).map fun f => some f.stored.2)
  encoder : c.toValues.insertions = (i.fields.filter NamedField.isMarked).map NamedField.stored
  decoder : c.fromValues.reads = (i.fields.filter NamedField.isMarked).map NamedField.stored
  create : (c.actorMethod .create).insertions =
    (i.fields.filter NamedField.isMarked).map NamedField.stored

section

variable {model : String} {key : Option String} {members : List Member}
  {schema : List PersistedField}

end

namespace Item

variable {i j : Item} {d : Declaration} {schema : List PersistedField} {store : List Token}

end Item

namespace ModelContext

def entries (c : ModelContext) : List (String × String) := c.schema.map fun p => (p.ident, p.name)

variable {c : ModelContext}

end ModelContext

section

variable {i j : Item} {d : Declaration} {schema : List PersistedField} {store : List Token}

/-- Members between which an expansion cannot tell. -/
structure Member.Alike (m n : Member) : Prop where
  name : m.name = n.name
  marker : m.marker = n.marker
  type : m.isPersisted = true → m.type = n.type

theorem NamedField.Alike.ofAttributes {f g : NamedField} (h : f.Alike g) :
    Marker.ofAttributes f.attributes = Marker.ofAttributes g.attributes := by
  unfold Marker.ofAttributes
  rw [h.markers]

end

end RecordStore
