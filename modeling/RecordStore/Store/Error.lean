import RecordStore.Field.Error

/-!
Why an operation on stored records failed, with the text that is shown for it.
-/
namespace RecordStore

inductive StoreError where
  /-- A value has no stored form, or a stored value does not fit its field. -/
  | serialization (error : CodecError)
  | missingField (typeName field : String)
  | duplicatePrimaryKey (typeName key : String)
  | primaryKeyChanged (typeName before after : String)
  | objectNotFound (typeName : String)
  | readOnly (identifier : String)
  | closed (typeName : String)
  | invalidated
  deriving DecidableEq, Repr

namespace StoreError

def message : StoreError → String
  | .serialization e => "serialization error: " ++ e.message
  | .missingField typeName field =>
    "`" ++ typeName ++ "` is missing persisted field `" ++ field ++ "`"
  | .duplicatePrimaryKey typeName key =>
    "a `" ++ typeName ++ "` with primary key " ++ key ++ " already exists"
  | .primaryKeyChanged typeName before after =>
    "primary key of `" ++ typeName ++ "` cannot change from " ++ before ++ " to " ++ after
  | .objectNotFound typeName => "`" ++ typeName ++ "` object does not exist in the store"
  | .readOnly identifier => "store `" ++ identifier ++ "` is opened read-only"
  | .closed typeName => "actor for `" ++ typeName ++ "` is closed"
  | .invalidated => "notification token was invalidated"

def isNotFound : StoreError → Bool
  | .objectNotFound _ => true
  | _ => false

end StoreError

end RecordStore
