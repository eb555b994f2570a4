import RecordStore.Derive.Manifest
import RecordStore.Derive.Operation

/-!
The expansion of a declaration: how its records are stored, its operations on the model, and the
actor that carries them out. A declaration expands in full or not at all.
-/
namespace RecordStore

open Code Token

namespace ModelContext

def ofDeclaration (d : Declaration) (schema : List PersistedField) (store : List Token) :
    ModelContext :=
  ⟨d.name, d.visibility, schema, d.transient, store⟩

def staticReference (type : List Token) : List Token :=
  ampersand :: lifetime "static" ++ type

def constant (name : String) (type : List Token) (value : Term) : List Token :=
  [.ident "const", .ident name, colon] ++ type ++ equals :: value.tokens ++ [semicolon]

def schemaEntry (c : ModelContext) (f : PersistedField) : Term :=
  .call (.path (c.runtime ["FieldSchema", "new"]))
    [.text f.name, .text f.signature.text, .truth f.primaryKey, .truth f.indexed] false

def toValues (c : ModelContext) : Method where
  name := "to_values"
  result := c.fallible (c.runtime ["Values"])
  body := c.collectValues (.field (.name "self") ·) true
  value := some (ok (.name "__gencrud_values"))

def fieldReads (c : ModelContext) : List (String × Term) :=
  (c.schema.map fun f => (f.ident, .propagate (.call (.path (c.runtime ["field"]))
    [.name "__gencrud_values", .text c.typeName, .text f.name] false))) ++
  c.transient.map fun ident =>
    (ident, .call (.path (globalPath ["core", "default", "Default", "default"])) [] false)

def fromValues (c : ModelContext) : Method where
  name := "from_values"
  receiver := .none
  parameters := [⟨"__gencrud_values", ampersand :: c.runtime ["Values"]⟩]
  trailing := true
  result := c.fallible selfType
  value := some (ok (.record "Self" c.fieldReads))

def record (c : ModelContext) : List Token :=
  .ident "impl" :: c.runtime ["Record"] ++ [.ident "for", .ident c.model, .group .brace
    (constant "TYPE_NAME" (staticReference [.ident "str"]) (.text c.typeName) ++
      constant "SCHEMA" (staticReference [.group .bracket (c.runtime ["FieldSchema"])])
        (.borrow (.array (c.schema.map c.schemaEntry))) ++
      c.toValues.tokens ++ c.fromValues.tokens)]

def actorBasics (c : ModelContext) : List Method := [
  { doc := docLine "Opens the store selected by `configuration`."
    visibility := c.visibility
    isAsync := true
    name := "new"
    receiver := .none
    parameters := [⟨"configuration", c.runtime ["Configuration"]⟩]
    trailing := true
    result := c.fallible selfType
    value := some (ok (.record "Self" [("inner", .propagate (.await
      (.call (.path (c.runtime ["ModelActor", "open"])) [.name "configuration"] false)))])) },
  { doc := docLine "Current lifecycle state."
    visibility := c.visibility
    name := "state"
    result := c.runtime ["ActorState"]
    value := some (.method inner "state" [] [] false) },
  { doc := docLine "Configuration of the underlying store."
    visibility := c.visibility
    name := "configuration"
    result := ampersand :: c.runtime ["Configuration"]
    value := some (.method inner "configuration" [] [] false) },
  { doc := (["Closes the actor. Later operations fail and every observation",
      "it started ends."].map docLine).flatten
    visibility := c.visibility
    name := "close"
    body := [.evaluate (.method inner "close" [] [] false)] }]

def peer (c : ModelContext) : List Token :=
  docText (" Serializes storage access for [`" ++ c.model ++ "`].\n\n " ++
      "Every operation issued through one actor runs to completion before " ++
      "the next one starts.") ++
    [.punct '#' false, .group .bracket [.ident "derive", .group .paren
      [.ident "Clone", .comma, .ident "Debug"]]] ++
    c.visibility ++ [.ident "struct", .ident c.actor, .group .brace (.ident "inner" :: colon ::
      applied (c.runtime ["ModelActor"]) [c.modelType] ++ [.comma])] ++
    [.ident "impl", .ident c.actor, .group .brace
      ((c.actorBasics ++ Operation.all.map c.actorMethod).map Method.tokens).flatten]

end ModelContext

/-- The parts of an expansion. -/
structure Artifact where
  model : String
  record : List Token
  members : List (Operation × List Token)
  peer : List Token

namespace Artifact

def ofContext (c : ModelContext) : Artifact :=
  ⟨c.model, c.record, Operation.all.map fun op => (op, (c.memberMethod op).tokens), c.peer⟩

def tokens (a : Artifact) : List Token :=
  a.record ++ [.ident "impl", .ident a.model, .group .brace
    (a.members.map Prod.snd).flatten] ++ a.peer

end Artifact

inductive ExpansionFailure where
  | invalid (error : ExpansionError)
  /-- The manifest gives the runtime a name that cannot stand in a path. -/
  | unusableName (name : String)
  deriving DecidableEq, Repr

namespace Expansion

def synthesize (d : Declaration) (store : List Token) : Except ExpansionError Artifact := do
  let schema ← Schema.ofDeclaration d
  return .ofContext (.ofDeclaration d schema store)

def model (i : Item) : Except ExpansionError (Declaration × List PersistedField) := do
  let d ← Declaration.ofItem i
  let _ ← d.requireModel
  return (d, ← Schema.ofDeclaration d)

def ofItem (manifest : Option Manifest) (i : Item) : Except ExpansionFailure (List Token) :=
  match model i with
  | .error e => .error (.invalid e)
  | .ok (d, schema) =>
    match RuntimePath.resolve manifest with
    | .error name => .error (.unusableName name)
    | .ok store => .ok (Artifact.ofContext (.ofDeclaration d schema store)).tokens

/-- What the compiler is given: the expansion, or nothing but the diagnostic. Where the runtime has
no usable name it is given nothing. -/
def output (manifest : Option Manifest) (i : Item) : Option (List Token) :=
  match ofItem manifest i with
  | .ok ts => some ts
  | .error (.invalid e) => some e.diagnostic
  | .error (.unusableName _) => none

end Expansion

end RecordStore
