import RecordStore.Number.Binary64

/-!
Stored values. A value is a JSON tree whose objects keep their entries in the order they were
made; an integer and a floating-point number are different values even where they are the same
number. Equality of values looks at object entries by key, so their order does not count.
-/
namespace RecordStore

-- Powers are those of the core library, whatever other instances are in scope.
attribute [local instance (high)] instPowNat

inductive Json where
  | null
  | bool (value : Bool)
  | integer (value : Int)
  | float (value : Binary64)
  | string (value : String)
  | array (items : List Json)
  | object (entries : List (String × Json))
  deriving Repr, Inhabited

/-- The stored values of one record by field name, in the order they were written. -/
abbrev Values := List (String × Json)

namespace Values

def get? (values : Values) (key : String) : Option Json := values.lookup key

def keys (values : Values) : List String := values.map Prod.fst

/-- Writes a value under a key: in its place where the key is there, at the end where not. -/
def insert (values : Values) (key : String) (value : Json) : Values :=
  match values with
  | [] => [(key, value)]
  | (k, v) :: rest => if k == key then (k, value) :: rest else (k, v) :: insert rest key value

/-- Writes entries one after the other, so that of two with one key the later value stays. -/
def ofEntries (entries : List (String × Json)) : Values :=
  entries.foldl (fun values e => values.insert e.1 e.2) []

end Values

namespace Json

def isStorable (n : Int) : Bool := -(2 ^ (63 : Nat) : Int) ≤ n && n < 2 ^ (64 : Nat)

mutual

def same : Json → Json → Bool
  | .null, .null => true
  | .bool a, .bool b => a == b
  | .integer a, .integer b => a == b
  | .float a, .float b => a.equal b
  | .string a, .string b => a == b
  | .array as, .array bs => sameItems as bs
  | .object es, .object fs => es.length == fs.length && sameEntries es fs
  | _, _ => false

def sameItems : List Json → List Json → Bool
  | [], [] => true
  | a :: as, b :: bs => same a b && sameItems as bs
  | _, _ => false

/-- Whether each entry of the first list has an equal value under its key in the second. -/
def sameEntries : List (String × Json) → Values → Bool
  | [], _ => true
  | (k, v) :: rest, fs =>
    (match fs.get? k with
     | some w => same v w
     | none => false) && sameEntries rest fs

end

def get? : Json → String → Option Json
  | .object entries, key => Values.get? entries key
  | _, _ => none

end Json

def Values.same (a b : Values) : Bool := (Json.object a).same (.object b)

end RecordStore
