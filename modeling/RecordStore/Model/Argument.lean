import RecordStore.Model.Basic

/-!
Arguments of typed calls, given as JSON. They are read like stored values, and can also say what
has no stored form: floating-point numbers that are not finite, integers beyond the stored range,
and maps whose keys are no texts.
-/
namespace RecordStore

namespace Data

def numberWord? (s : String) : Option Binary64 :=
  if s = "NaN" then some .nan
  else if s = "inf" then some (.infinity false)
  else if s = "-inf" then some (.infinity true)
  else none

/-- The integer that a text of digits after at most one sign denotes. Only a type with negative
members admits a minus sign. -/
def integerText? (k : IntegerType) (s : String) : Option Int :=
  let natural (cs : List Char) : Option Nat :=
    if cs.isEmpty || !cs.all Char.isDigit then none
    else some (cs.foldl (fun n c => 10 * n + Numeral.digitValue c) 0)
  match s.toList with
  | '+' :: rest => (natural rest).map Int.ofNat
  | '-' :: rest => if k.minimum < 0 then (natural rest).map fun n => -(n : Int) else none
  | cs => (natural cs).map Int.ofNat

def pair? : Json → Option (Json × Json)
  | .array [k, v] => some (k, v)
  | _ => none

def ofArgument : FieldType → Json → Except CodecError Data
  | .float p, .string s =>
    match numberWord? s with
    | some x => .ok (.float x)
    | none => decode (.string s) (.float p)
  | .integer k, .string s =>
    match integerText? k s with
    | some n => decode (.integer n) (.integer k)
    | none => decode (.string s) (.integer k)
  | .option _, .null => .ok .absent
  | .option t, v => (ofArgument t v).map .present
  | .map k t, .array items => do
    let entries ← items.mapM fun item =>
      match pair? item with
      | some (a, b) => do return (← ofArgument k a, ← ofArgument t b)
      | none => .error (CodecError.mismatch item "a pair")
    return mapOf entries
  | t, v => decode v t

end Data

namespace Model

/-- Reads one field of an argument; one that is not given is null. -/
def fieldArgument (given : Values) (name : String) (t : FieldType) :
    Except CodecError (String × Data) :=
  (Data.ofArgument t ((given.get? name).getD .null)).map (name, ·)

def transientArgument (given : Values) (f : TransientField) : Except CodecError (String × Data) :=
  match given.get? f.name with
  | some v => (Data.ofArgument f.type v).map (f.name, ·)
  | none => .ok (f.name, f.default)

def recordArgument (m : Model) (given : Values) : Except CodecError Record :=
  match m.form with
  | .verbatim => .ok ⟨given.map fun (name, v) => (name, .json v), m.defaults⟩
  | .fields => do
    let fields ← m.fields.mapM fun f => fieldArgument given f.name f.type
    return ⟨fields, ← m.transient.mapM (transientArgument given)⟩

def fieldType? (m : Model) (name : String) : Option FieldType :=
  match m.form with
  | .verbatim => some .json
  | .fields =>
    match m.fields.find? (·.name == name) with
    | some f => some f.type
    | none => (m.transient.find? (·.name == name)).map TransientField.type

def changesArgument (m : Model) (given : Values) : Except CodecError (List (String × Data)) :=
  given.mapM fun (name, v) =>
    match m.fieldType? name with
    | some t => (Data.ofArgument t v).map (name, ·)
    | none => .error (.missingField name)

end Model

end RecordStore
