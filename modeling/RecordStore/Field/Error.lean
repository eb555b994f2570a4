import RecordStore.Field.ObjectId
import RecordStore.Json.Printer

/-!
Why a field value has no stored form, or a stored value is no value of a type. What was found is
described by its kind, and with its value where it has one.
-/
namespace RecordStore

/-- What was found in place of what was expected. -/
inductive Found where
  | null
  | bool (value : Bool)
  | integer (value : Int)
  | float (value : Binary64)
  | string (value : String)
  | sequence
  | map
  /-- The name of an alternative without what it should carry. -/
  | bareVariant
  deriving DecidableEq, Repr

inductive CodecError where
  | invalidType (found : Found) (expected : String)
  | invalidValue (found : Found) (expected : String)
  | invalidLength (length : Nat) (expected : String)
  | missingField (name : String)
  | unknownVariant (name : String) (known : List String)
  | objectId (error : ObjectIdError)
  | keyNotNumber
  /-- A key that is a number is wrong, at a line and column of its text. -/
  | key (message : String) (line column : Nat)
  | keyNotText
  | floatKeyNotFinite
  | numberOutOfRange
  deriving DecidableEq, Repr

namespace Found

def text : Found → String
  | .null => "null"
  | .bool b => "boolean `" ++ (if b then "true" else "false") ++ "`"
  | .integer n => "integer `" ++ toString n ++ "`"
  | .float x => "floating point `" ++ Json.floatText x ++ "`"
  | .string s => "string " ++ Escape.quoted s
  | .sequence => "sequence"
  | .map => "map"
  | .bareVariant => "unit variant"

def ofJson : Json → Found
  | .null => .null
  | .bool b => .bool b
  | .integer n => .integer n
  | .float x => .float x
  | .string s => .string s
  | .array _ => .sequence
  | .object _ => .map

end Found

namespace CodecError

def oneOf : List String → String
  | [] => "there are no variants"
  | [a] => "expected `" ++ a ++ "`"
  | [a, b] => "expected `" ++ a ++ "` or `" ++ b ++ "`"
  | names => "expected one of " ++ ", ".intercalate (names.map fun s => "`" ++ s ++ "`")

def message : CodecError → String
  | .invalidType found expected => "invalid type: " ++ found.text ++ ", expected " ++ expected
  | .invalidValue found expected => "invalid value: " ++ found.text ++ ", expected " ++ expected
  | .invalidLength n expected => "invalid length " ++ toString n ++ ", expected " ++ expected
  | .missingField name => "missing field `" ++ name ++ "`"
  | .unknownVariant name known => "unknown variant `" ++ name ++ "`, " ++ oneOf known
  | .objectId e => "UUID parsing failed: " ++ e.message
  | .keyNotNumber => "invalid value: expected key to be a number in quotes"
  | .key message line column =>
    message ++ " at line " ++ toString line ++ " column " ++ toString column
  | .keyNotText => "key must be a string"
  | .floatKeyNotFinite => "float key must be finite (got NaN or +/-inf)"
  | .numberOutOfRange => "number out of range"

def mismatch (v : Json) (expected : String) : CodecError := .invalidType (.ofJson v) expected

end CodecError

end RecordStore
