import RecordStore.Field.ObjectId
import RecordStore.Field.Type

/-!
Field values before they are stored. One type holds the values of every field type; which of them
belong to a type is decided when a stored value is read. Sets and maps are lists in order, without
repetition.
-/
namespace RecordStore

inductive Data where
  | bool (value : Bool)
  | integer (value : Int)
  | float (value : Binary64)
  | char (value : Char)
  | string (value : String)
  | unit
  | json (value : Json)
  | objectId (value : ObjectId)
  /-- An option without a value. -/
  | absent
  | present (value : Data)
  /-- The items of a list, an array, a tuple or a set. -/
  | list (items : List Data)
  | map (entries : List (Data × Data))
  | struct (fields : List (String × Data))
  | variant (name : String) (content : Option Data)
  deriving Inhabited

/-- A part of a struct. Without a default it has to be there, unless it is optional. -/
structure StructField where
  name : String
  type : FieldType
  default? : Option Data

namespace StructName

def fields : StructName → List StructField
  | .comment => [⟨"text", .string, none⟩, ⟨"likes", .u32, some (.integer 0)⟩]
  | .configuration => [
      ⟨"identifier", .string, some (.string "default")⟩,
      ⟨"read_only", .bool, some (.bool false)⟩,
      ⟨"in_memory", .bool, some (.bool false)⟩]
  | .post => [⟨"id", .objectId, none⟩, ⟨"sender_id", .string, none⟩, ⟨"content", .string, none⟩,
      ⟨"posted_at", .u64, none⟩]
  | .node => [⟨"label", .string, none⟩, ⟨"children", .list (.struct .node), none⟩,
      ⟨"parent", .option (.box (.struct .node)), none⟩]

end StructName

namespace StructField

def absent? (f : StructField) : Option Data :=
  match f.default? with
  | some d => some d
  | none => if f.type.peel.1 = 0 then none else some .absent

end StructField

namespace Data

def presentIn : Nat → Data → Data
  | 0, d => d
  | n + 1, d => .present (presentIn n d)

def rank : Data → Nat
  | .absent => 0
  | .present _ => 1
  | .bool _ => 2
  | .integer _ => 3
  | .char _ => 4
  | .string _ => 5
  | .objectId _ => 6
  | .unit => 7
  | .list _ => 8
  | .variant .. => 9
  | .float _ => 10
  | .json _ => 11
  | .map _ => 12
  | .struct _ => 13

def stringOrder (a b : String) : Ordering := compareOfLessAndEq a b

mutual

def order : Data → Data → Ordering
  | .bool a, .bool b => compare a.toNat b.toNat
  | .integer a, .integer b => compare a b
  | .char a, .char b => compare a.toNat b.toNat
  | .string a, .string b => stringOrder a b
  | .objectId a, .objectId b => if a.lt b then .lt else if b.lt a then .gt else .eq
  | .present a, .present b => order a b
  | .list as, .list bs => orderItems as bs
  | .map as, .map bs => orderEntries as bs
  | .variant a _, .variant b _ => stringOrder a b
  | a, b => compare a.rank b.rank

def orderItems : List Data → List Data → Ordering
  | [], [] => .eq
  | [], _ :: _ => .lt
  | _ :: _, [] => .gt
  | a :: as, b :: bs => (order a b).then (orderItems as bs)

/-- Maps compare by their first entries that differ, in the key or else in the value. -/
def orderEntries : List (Data × Data) → List (Data × Data) → Ordering
  | [], [] => .eq
  | [], _ :: _ => .lt
  | _ :: _, [] => .gt
  | (k, v) :: as, (l, w) :: bs => ((order k l).then (order v w)).then (orderEntries as bs)

end

def insertItem (d : Data) : List Data → List Data
  | [] => [d]
  | e :: rest =>
    match order d e with
    | .lt => d :: e :: rest
    | .eq => e :: rest
    | .gt => e :: insertItem d rest

def insertEntry (k v : Data) : List (Data × Data) → List (Data × Data)
  | [] => [(k, v)]
  | (l, w) :: rest =>
    match order k l with
    | .lt => (k, v) :: (l, w) :: rest
    | .eq => (l, v) :: rest
    | .gt => (l, w) :: insertEntry k v rest

def setOf (items : List Data) : Data := .list (items.foldl (fun s d => insertItem d s) [])

def mapOf (entries : List (Data × Data)) : Data :=
  .map (entries.foldl (fun m e => insertEntry e.1 e.2 m) [])

end Data

end RecordStore
