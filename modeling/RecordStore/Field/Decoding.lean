import RecordStore.Field.Data
import RecordStore.Field.NumericKey

/-!
Reading stored values as values of a type. Reading follows the stored value, left to right, and
the first part that does not fit is the error. Null stands for an absent option, however deep the
options go; boxes do not show.
-/
namespace RecordStore.Data

def ofText (s : String) : FieldType → Except CodecError Data
  | .string => .ok (.string s)
  | .json => .ok (.json (.string s))
  | .char =>
    match s.toList with
    | [c] => .ok (.char c)
    | _ => .error (.invalidValue (.string s) FieldType.char.expected)
  | .objectId =>
    match ObjectId.parse s with
    | .ok id => .ok (.objectId id)
    | .error e => .error (.objectId e)
  | .enum name =>
    match name.variants.lookup s with
    | some none => .ok (.variant s none)
    | some (some _) => .error (.invalidType .bareVariant "newtype variant")
    | none => .error (.unknownVariant s (name.variants.map Prod.fst))
  | t => .error (.invalidType (.string s) t.expected)

/-- Reads a number as a value of a type that numbers can stand for. An integer is rounded to the
precision of a floating-point type at once. -/
def ofNumber (v : Json) (t : FieldType) : Except CodecError Data :=
  match v, t with
  | .integer n, .integer k =>
    if k.contains n then .ok (.integer n) else .error (.invalidValue (.integer n) k.name)
  | .integer n, .float p => .ok (.float (Binary64.ofInt p n))
  | .float x, .float p => .ok (.float (x.toPrecision p))
  | v, .json => .ok (.json v)
  | v, t => .error (CodecError.mismatch v t.expected)

def ofNull : FieldType → Except CodecError Data
  | .unit => .ok .unit
  | .json => .ok (.json .null)
  | t => .error (.invalidType .null t.expected)

/-- Reads a value as one of the type inside some options, and puts the options around it. -/
def within (t : FieldType) (read : FieldType → Except CodecError Data) : Except CodecError Data :=
  (read t.peel.2).map (presentIn t.peel.1)

/-- Reads a key of a map. A number may be followed by nothing. -/
def ofKey (key : String) (t : FieldType) : Except CodecError Data :=
  within t fun
    | .bool =>
      if key = "true" then .ok (.bool true)
      else if key = "false" then .ok (.bool false)
      else .error (.invalidType (.string key) FieldType.bool.expected)
    | .integer k => number (.integer k)
    | .float p => number (.float p)
    | t => ofText key t
where
  number (t : FieldType) : Except CodecError Data := do
    let (v, rest) ← NumericKey.read key
    match ofNumber v t with
    | .error e => throw (NumericKey.error key e.message rest)
    | .ok d => if rest.isEmpty then return d else throw .keyNotNumber

/-- The parts of a struct in order, from those that were read; the first that is neither there
nor may be absent is an error. -/
def completeStruct (parts : List (String × Data)) :
    List StructField → Except CodecError (List (String × Data))
  | [] => .ok []
  | f :: rest =>
    match parts.lookup f.name <|> f.absent? with
    | none => .error (.missingField f.name)
    | some d => (completeStruct parts rest).map ((f.name, d) :: ·)

def defaultParts (short : CodecError) :
    List StructField → Except CodecError (List (String × Data))
  | [] => .ok []
  | f :: rest =>
    match f.default? with
    | none => .error short
    | some d => (defaultParts short rest).map ((f.name, d) :: ·)

def tooLong (items : List Json) : CodecError :=
  .invalidLength items.length "fewer elements in array"

def tooShort (items : List Json) (expected : String) : CodecError :=
  .invalidLength items.length expected

def structExpected (n : StructName) : String :=
  "struct " ++ n.text ++ " with " ++ toString n.fields.length ++
    (if n.fields.length = 1 then " element" else " elements")

mutual

def decode : Json → FieldType → Except CodecError Data
  | .null, t => if t.peel.1 = 0 then ofNull t.peel.2 else .ok .absent
  | .bool b, t => within t fun
    | .bool => .ok (.bool b)
    | .json => .ok (.json (.bool b))
    | t => .error (.invalidType (.bool b) t.expected)
  | .integer n, t => within t (ofNumber (.integer n))
  | .float x, t => within t (ofNumber (.float x))
  | .string s, t => within t (ofText s)
  | .array items, t => within t fun
    | .list u => (decodeAll items u).map .list
    | .set u => (decodeAll items u).map setOf
    | .array u n =>
      (decodeEach items (List.replicate n u)
        (tooShort items (FieldType.array u n).expected) (tooLong items)).map .list
    | .tuple ts =>
      (decodeEach items ts
        (tooShort items (FieldType.tuple ts).expected) (tooLong items)).map .list
    | .struct n =>
      (decodeParts items n.fields (tooShort items (structExpected n)) (tooLong items)).map .struct
    | .json => .ok (.json (.array items))
    | t => .error (.invalidType .sequence t.expected)
  | .object entries, t => within t fun
    | .map k u => (decodeEntries entries k u).map mapOf
    | .struct n => do .struct <$> completeStruct (← decodeFields entries n.fields) n.fields
    | .enum n => decodeVariant entries n
    | .json => .ok (.json (.object entries))
    | t => .error (.invalidType .map t.expected)

def decodeAll : List Json → FieldType → Except CodecError (List Data)
  | [], _ => .ok []
  | v :: rest, t => do
    let d ← decode v t
    return d :: (← decodeAll rest t)

/-- Reads as many items as there are types; what is left over is an error after all else. -/
def decodeEach : List Json → List FieldType → (short long : CodecError) →
    Except CodecError (List Data)
  | [], [], _, _ => .ok []
  | [], _ :: _, short, _ => .error short
  | _ :: _, [], _, long => .error long
  | v :: rest, t :: ts, short, long => do
    let d ← decode v t
    return d :: (← decodeEach rest ts short long)

def decodeParts : List Json → List StructField → (short long : CodecError) →
    Except CodecError (List (String × Data))
  | [], fields, short, _ => defaultParts short fields
  | _ :: _, [], _, long => .error long
  | v :: rest, f :: fields, short, long => do
    let d ← decode v f.type
    return (f.name, d) :: (← decodeParts rest fields short long)

def decodeEntries : List (String × Json) → FieldType → FieldType →
    Except CodecError (List (Data × Data))
  | [], _, _ => .ok []
  | (key, v) :: rest, k, t => do
    let key ← ofKey key k
    let d ← decode v t
    return (key, d) :: (← decodeEntries rest k t)

/-- Reads the entries of an object that are parts of a struct, in the order of the entries. -/
def decodeFields : List (String × Json) → List StructField →
    Except CodecError (List (String × Data))
  | [], _ => .ok []
  | (key, v) :: rest, fields =>
    match fields.find? (·.name == key) with
    | none => decodeFields rest fields
    | some f => do
      let d ← decode v f.type
      return (key, d) :: (← decodeFields rest fields)

def decodeVariant : List (String × Json) → EnumName → Except CodecError Data
  | [(name, v)], n =>
    match n.variants.lookup name with
    | none => .error (.unknownVariant name (n.variants.map Prod.fst))
    | some none => (decode v .unit).map fun _ => .variant name none
    | some (some t) => (decode v t).map fun d => .variant name (some d)
  | _, _ => .error (.invalidValue .map "map with a single key")

end

end RecordStore.Data

namespace RecordStore.ObjectId

def decode : Json → Except CodecError ObjectId
  | .string s => (parse s).mapError .objectId
  | v => .error (.mismatch v FieldType.objectId.expected)

end RecordStore.ObjectId
