import RecordStore.Derive.Signature
import RecordStore.Number.Binary64

/-!
The types that fields can have. Besides the basic ones and what is built from them there are a few
named types with parts of their own; these are known by name, so that a type may contain itself.
-/
namespace RecordStore

-- Powers are those of the core library, whatever other instances are in scope.
attribute [local instance (high)] instPowNat

/-- Integer types by their range. -/
structure IntegerType where
  name : String
  minimum : Int
  maximum : Int
  deriving DecidableEq, Repr

namespace IntegerType

def unsigned (bits : Nat) : IntegerType := ⟨"u" ++ toString bits, 0, 2 ^ bits - 1⟩

def signed (bits : Nat) : IntegerType :=
  ⟨"i" ++ toString bits, -(2 ^ (bits - 1)), 2 ^ (bits - 1) - 1⟩

def contains (k : IntegerType) (n : Int) : Bool := k.minimum ≤ n && n ≤ k.maximum

def all : List IntegerType :=
  [8, 16, 32, 64, 128].map unsigned ++ [8, 16, 32, 64, 128].map signed

end IntegerType

inductive StructName where
  | comment
  | configuration
  | post
  | node
  deriving DecidableEq, Repr

inductive EnumName where
  | status
  deriving DecidableEq, Repr

inductive FieldType where
  | bool
  | integer (type : IntegerType)
  | float (precision : Precision)
  | char
  | string
  | unit
  /-- Any stored value. -/
  | json
  | objectId
  | option (type : FieldType)
  | box (type : FieldType)
  | list (type : FieldType)
  | array (type : FieldType) (length : Nat)
  | tuple (types : List FieldType)
  /-- A set in the order of its members. -/
  | set (type : FieldType)
  /-- A map in the order of its keys. -/
  | map (key value : FieldType)
  | struct (name : StructName)
  | enum (name : EnumName)
  deriving Inhabited

namespace StructName

def text : StructName → String
  | .comment => "Comment"
  | .configuration => "Configuration"
  | .post => "Post"
  | .node => "Node"

def all : List StructName := [.comment, .configuration, .post, .node]

end StructName

namespace EnumName

def text : EnumName → String
  | .status => "Status"

def variants : EnumName → List (String × Option FieldType)
  | .status => [("Open", none), ("Done", none), ("Named", some .string)]

def all : List EnumName := [.status]

end EnumName

namespace FieldType

def u8 : FieldType := .integer (.unsigned 8)
def u32 : FieldType := .integer (.unsigned 32)
def u64 : FieldType := .integer (.unsigned 64)
def i8 : FieldType := .integer (.signed 8)
def i64 : FieldType := .integer (.signed 64)
def f32 : FieldType := .float .single
def f64 : FieldType := .float .double

def floatName (p : Precision) : String := if p = .single then "f32" else "f64"

mutual

def text : FieldType → String
  | .bool => "bool"
  | .integer k => k.name
  | .float p => floatName p
  | .char => "char"
  | .string => "String"
  | .unit => "()"
  | .json => "Value"
  | .objectId => "ObjectId"
  | .option t => "Option<" ++ t.text ++ ">"
  | .box t => "Box<" ++ t.text ++ ">"
  | .list t => "Vec<" ++ t.text ++ ">"
  | .array t n => "[" ++ t.text ++ "; " ++ toString n ++ "]"
  | .tuple ts =>
    "(" ++ ", ".intercalate (texts ts) ++ (if ts.length = 1 then ",)" else ")")
  | .set t => "BTreeSet<" ++ t.text ++ ">"
  | .map k v => "BTreeMap<" ++ k.text ++ ", " ++ v.text ++ ">"
  | .struct n => n.text
  | .enum n => n.text

def texts : List FieldType → List String
  | [] => []
  | t :: rest => t.text :: texts rest

end

def expected : FieldType → String
  | .bool => "a boolean"
  | .integer k => k.name
  | .float p => floatName p
  | .char => "a character"
  | .string => "a string"
  | .unit => "unit"
  | .json => "any valid JSON value"
  | .objectId => "a formatted UUID string"
  | .option _ => "option"
  | .box t => t.expected
  | .list _ => "a sequence"
  | .array _ 0 => "an empty array"
  | .array _ n => "an array of length " ++ toString n
  | .tuple ts => "a tuple of size " ++ toString ts.length
  | .set _ => "a sequence"
  | .map _ _ => "a map"
  | .struct n => "struct " ++ n.text
  | .enum _ => "string or map"

/-- The number of options around a type and the type inside them. A box is not there to see. -/
def peel : FieldType → Nat × FieldType
  | .option t => (t.peel.1 + 1, t.peel.2)
  | .box t => t.peel
  | t => (0, t)

def ofName? (name : String) : Option FieldType :=
  match IntegerType.all.find? (·.name == name) with
  | some k => some (.integer k)
  | none =>
    match StructName.all.find? (·.text == name) with
    | some n => some (.struct n)
    | none =>
      match EnumName.all.find? (·.text == name) with
      | some n => some (.enum n)
      | none =>
        [.bool, f32, f64, .char, .string, .json, .objectId].find? fun t => t.text == name

mutual

def ofSignature? : Signature → Option FieldType
  | .path false [name] [] => ofName? name
  | .path false [name] [.type s] => do
    let t ← ofSignature? s
    if name = "Option" then some (.option t)
    else if name = "Box" then some (.box t)
    else if name = "Vec" then some (.list t)
    else if name = "BTreeSet" then some (.set t)
    else none
  | .path false [name] [.type k, .type v] => do
    let k ← ofSignature? k
    let v ← ofSignature? v
    if name = "BTreeMap" then some (.map k v) else none
  | .path .. => none
  | .tuple [] => some .unit
  | .tuple items => do return .tuple (← ofSignatures? items)
  | .array element length => do return .array (← ofSignature? element) (← length.toNat?)
  | .slice _ => none

def ofSignatures? : List Signature → Option (List FieldType)
  | [] => some []
  | s :: rest => do return (← ofSignature? s) :: (← ofSignatures? rest)

end

def parse? (source : String) : Option FieldType := do
  let t ← TypeExpr.parse? source
  let s ← (Signature.resolve "field" t).toOption
  ofSignature? s

end FieldType

end RecordStore
