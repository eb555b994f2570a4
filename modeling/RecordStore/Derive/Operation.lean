import RecordStore.Derive.Code
import RecordStore.Derive.Schema

/-!
The operations that a model is given. Each is a method of the model, which opens an actor on the
default store and forwards to it, and a method of the actor, which does the work.
-/
namespace RecordStore

open Code Token

inductive Operation where
  | create
  | update
  | delete
  | list
  | observe
  deriving DecidableEq, Repr

/-- What the generated code of one model depends on. -/
structure ModelContext where
  model : String
  visibility : List Token
  schema : List PersistedField
  transient : List String
  /-- The path to the storage runtime. -/
  store : List Token

namespace Operation

def all : List Operation := [.create, .update, .delete, .list, .observe]

def name : Operation → String
  | .create => "create"
  | .update => "update"
  | .delete => "delete"
  | .list => "list"
  | .observe => "observe"

end Operation

namespace ModelContext

/-- The name of the actor type; it has no raw marker. -/
def actor (c : ModelContext) : String := unraw c.model ++ "Actor"

def typeName (c : ModelContext) : String := unraw c.model

def runtime (c : ModelContext) (names : List String) : List Token :=
  c.store ++ globalPath names

def modelType (c : ModelContext) : List Token := [.ident c.model]

def fallible (c : ModelContext) (type : List Token) : List Token :=
  applied (globalPath ["core", "result", "Result"]) [type, c.runtime ["StoreError"]]

def ok (t : Term) : Term := .call (.path (globalPath ["core", "result", "Result", "Ok"])) [t] false

def idents (c : ModelContext) : List String := c.schema.map PersistedField.ident

def arguments (c : ModelContext) : List Term := c.idents.map .name

def parameters (c : ModelContext) : List Parameter :=
  c.schema.map fun f => ⟨f.ident, f.type.tokens⟩

def optionalParameters (c : ModelContext) : List Parameter :=
  c.schema.map fun f => ⟨f.ident, applied (globalPath ["core", "option", "Option"]) [f.type.tokens]⟩

def freeName (c : ModelContext) (base : String) : String :=
  if c.schema.any (·.name == base) then "__gencrud_" ++ base else base

def unitType : List Token := [.group .paren []]

def selfType : List Token := [.ident "Self"]

def contextParameter (c : ModelContext) : Parameter :=
  ⟨"context", c.runtime ["ExecutionContext"]⟩

def openActor (c : ModelContext) : Statement :=
  .bind false "__gencrud_actor" (.propagate (.await (.call (.path (pathOf [c.actor, "new"]))
    [.call (.path (c.runtime ["Configuration", "default"])) [] false] false)))

def forward (name : String) (arguments : List Term) (trailing : Bool) : Term :=
  .await (.method (.name "__gencrud_actor") name [] arguments trailing)

def memberMethod (c : ModelContext) : Operation → Method
  | .create => {
      doc := docText (" Persists a new `" ++ c.model ++ "` in the default store and returns it.")
      visibility := c.visibility
      isAsync := true
      name := "create"
      receiver := .none
      parameters := c.parameters
      result := c.fallible selfType
      body := [c.openActor]
      value := some (forward "create" c.arguments false) }
  | .update => {
      doc := docText (" Sets the given fields of this `" ++ c.model ++
        "` in the default store.\n\n Fields passed as `None` keep their stored value. " ++
        "On success `self` holds the persisted fields as committed.")
      visibility := c.visibility
      isAsync := true
      name := "update"
      receiver := .mutable
      parameters := c.optionalParameters
      trailing := c.schema.isEmpty
      result := c.fallible unitType
      body := c.openActor ::
        .bind true "__gencrud_record"
          (.propagate (forward "update" (.name "self" :: c.arguments) c.schema.isEmpty)) ::
        c.idents.map fun ident => .evaluate (.call (.path (globalPath ["core", "mem", "swap"]))
          [.borrowMut (.field (.name "self") ident),
            .borrowMut (.field (.name "__gencrud_record") ident)] false)
      value := some (ok .unit) }
  | .delete => {
      doc := docText (" Removes this `" ++ c.model ++ "` from the default store.")
      visibility := c.visibility
      isAsync := true
      name := "delete"
      result := c.fallible unitType
      body := [c.openActor]
      value := some (forward "delete" [.name "self"] false) }
  | .list => {
      doc := docText (" Returns every `" ++ c.model ++ "` in the default store.")
      visibility := c.visibility
      isAsync := true
      name := "list"
      receiver := .none
      result := c.fallible (applied (c.runtime ["Results"]) [selfType])
      body := [c.openActor]
      value := some (forward "list" [] false) }
  | .observe => {
      doc := docText (" Observes every `" ++ c.model ++ "` in the default store.\n\n " ++
        "The first change delivered is the initial collection. Pass " ++
        "`ExecutionContext::default()` (`Inline`) to receive changes on " ++
        "whichever task polls the observation.")
      visibility := c.visibility
      isAsync := true
      name := "observe"
      receiver := .none
      parameters := [c.contextParameter]
      trailing := true
      result := c.fallible (applied (c.runtime ["Observation"]) [selfType])
      body := [c.openActor]
      value := some (forward "observe" [.name "context"] false) }

def inner : Term := .field (.name "self") "inner"

def write (body : Term) : Term :=
  .await (.method inner "write" [] [.closure "__gencrud_txn" body] false)

def transaction : Term := .name "__gencrud_txn"

def bindReference (c : ModelContext) (object : String) : Statement :=
  .bind false "__gencrud_reference"
    (.propagate (.call (.path (c.runtime ["ThreadSafeReference", "new"])) [.name object] false))

def reference : Term := .borrow (.name "__gencrud_reference")

def encoded (c : ModelContext) (t : Term) : Term :=
  .propagate (.call (.path (c.runtime ["to_value"])) [.borrow t] false)

def collectValues (c : ModelContext) (value : String → Term) (trailing : Bool) :
    List Statement :=
  .bind true "__gencrud_values" (.call (.path (c.runtime ["Values", "new"])) [] false) ::
    c.schema.map fun f => .evaluate (.method (.name "__gencrud_values") "insert" []
      [.call (.path (globalPath ["std", "string", "String", "from"])) [.text f.name] false,
        c.encoded (value f.ident)] trailing)

def actorMethod (c : ModelContext) : Operation → Method
  | .create => {
      doc := docLine "Persists a new record built from the given fields."
      visibility := c.visibility
      isAsync := true
      name := "create"
      parameters := c.parameters
      trailing := c.schema.isEmpty
      result := c.fallible c.modelType
      body := c.collectValues .name false
      value := some (write (.method transaction "create" c.modelType
        [.name "__gencrud_values"] false)) }
  | .update =>
    let object := c.freeName "object"
    { doc := (["Sets the given fields of the stored counterpart of the given",
          "record and returns the record as committed.", "",
          "Fields passed as `None` keep their stored value."].map docLine).flatten
      visibility := c.visibility
      isAsync := true
      name := "update"
      parameters := ⟨object, ampersand :: c.modelType⟩ :: c.optionalParameters
      trailing := c.schema.isEmpty
      result := c.fallible c.modelType
      body := [c.bindReference object]
      value := some (write (.block [] (some (.method transaction "modify" []
        [reference, .closure "__gencrud_record" (.block
          (c.idents.map fun ident => .whenSome "__gencrud_value" (.name ident)
            [.assign (.field (.name "__gencrud_record") ident) (.name "__gencrud_value")])
          none)] false)))) }
  | .delete =>
    let object := c.freeName "object"
    { doc := docLine "Removes the stored counterpart of the given record."
      visibility := c.visibility
      isAsync := true
      name := "delete"
      parameters := [⟨object, ampersand :: c.modelType⟩]
      trailing := true
      result := c.fallible unitType
      body := [c.bindReference object]
      value := some (write (.method transaction "delete" [] [reference] false)) }
  | .list => {
      doc := docLine "Returns a snapshot of every stored record."
      visibility := c.visibility
      isAsync := true
      name := "list"
      trailing := true
      result := c.fallible (applied (c.runtime ["Results"]) [c.modelType])
      value := some (.await (.method inner "objects" [] [] false)) }
  | .observe => {
      doc := (["Observes every stored record. Changes are delivered on `context`.", "",
          "Pass `ExecutionContext::default()` (`Inline`) to receive changes",
          "on whichever task polls the observation."].map docLine).flatten
      visibility := c.visibility
      isAsync := true
      name := "observe"
      parameters := [c.contextParameter]
      trailing := true
      result := c.fallible (applied (c.runtime ["Observation"]) [c.modelType])
      value := some (.await (.method inner "observe" [] [.name "context"] false)) }

end ModelContext

end RecordStore
