import RecordStore.Field.Data
import RecordStore.Field.Error

/-!
The stored form of field values. A number that is not finite is stored as null, an integer that
has no exact stored form is refused, and so is a map whose keys have no text.
-/
namespace RecordStore.Data

def floatJson (x : Binary64) : Json := if x.isFinite then .float x else .null

def integerJson (n : Int) : Except CodecError Json :=
  if Json.isStorable n then .ok (.integer n) else .error .numberOutOfRange

def keyText : Data → Except CodecError String
  | .string s => .ok s
  | .integer n => .ok (toString n)
  | .bool b => .ok (if b then "true" else "false")
  | .char c => .ok c.toString
  | .objectId id => .ok id.stored
  | .variant name none => .ok name
  | .float x => if x.isFinite then .ok (Json.floatText x) else .error .floatKeyNotFinite
  | _ => .error .keyNotText

mutual

def encode : Data → Except CodecError Json
  | .bool b => .ok (.bool b)
  | .integer n => integerJson n
  | .float x => .ok (floatJson x)
  | .char c => .ok (.string c.toString)
  | .string s => .ok (.string s)
  | .unit => .ok .null
  | .json v => .ok v
  | .objectId id => .ok (.string id.stored)
  | .absent => .ok .null
  | .present d => encode d
  | .list items => (encodeItems items).map .array
  | .map entries => (encodeEntries entries).map .object
  | .struct fields => (encodeFields fields).map .object
  | .variant name none => .ok (.string name)
  | .variant name (some d) => (encode d).map fun v => .object [(name, v)]

def encodeItems : List Data → Except CodecError (List Json)
  | [] => .ok []
  | d :: rest => do
    let v ← encode d
    return v :: (← encodeItems rest)

/-- The entries of a map in their order; a key is judged before its value. -/
def encodeEntries : List (Data × Data) → Except CodecError (List (String × Json))
  | [] => .ok []
  | (k, d) :: rest => do
    let key ← keyText k
    let v ← encode d
    return (key, v) :: (← encodeEntries rest)

def encodeFields : List (String × Data) → Except CodecError Values
  | [] => .ok []
  | (name, d) :: rest => do
    let v ← encode d
    return (name, v) :: (← encodeFields rest)

end

end RecordStore.Data
