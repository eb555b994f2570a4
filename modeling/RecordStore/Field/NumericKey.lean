import RecordStore.Field.Error
import RecordStore.Json.Numeral

/-!
Map keys that are numbers. Such a key is the text of a JSON number from its first character to its
last; an error in it names the line and column where reading stopped.
-/
namespace RecordStore.NumericKey

def position (before : List Char) : Nat × Nat :=
  before.foldl
    (fun (line, column) c => if c = '\n' then (line + 1, 0) else (line, column + 1)) (1, 0)

def error (key message : String) (left : List Char) : CodecError :=
  let cs := key.toList
  let (line, column) := position (cs.take (cs.length - left.length))
  .key message line column

def faultText : Numeral.Fault → String
  | .ended => "EOF while parsing a value"
  | .malformed => "invalid number"
  | .outOfRange => "number out of range"

def read (key : String) : Except CodecError (Json × List Char) :=
  let cs := key.toList
  if !(cs.head?.map fun c => c.isDigit || c == '-').getD false then .error .keyNotNumber
  else
    match Numeral.read cs with
    | .ok outcome => .ok outcome
    | .error failure => .error (error key (faultText failure.fault) failure.left)

end RecordStore.NumericKey
