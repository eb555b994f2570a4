import RecordStore.Source.Generics

/-!
Data types as written: structs, enums and unions with their fields, and the visibility that they
share with other items. Only named fields are kept apart from the tokens around them.
-/
namespace RecordStore

/-- A field with a name. -/
structure NamedField where
  attributes : List Attribute
  visibility : List Fragment
  name : String
  type : TypeExpr

inductive ItemShape where
  | struct
  | tupleStruct
  | unitStruct
  | enum
  | union
  deriving DecidableEq, Repr

/-- A data type with its tokens from the word that introduces it on. Only a struct with named
fields lists its fields. -/
structure DataType where
  name : String
  generics : List Fragment
  shape : ItemShape
  fields : List NamedField
  fragments : List Fragment

namespace DataTypeReader

open Reader Fragment TypeReader GenericsReader

/-- Reads a visibility. Parentheses that restrict nothing belong to what follows. -/
def visibility (r : Readers) : Reader (List Fragment) := do
  if ← next (isWord "pub") then
    let start ← word "pub"
    let content := match (← get).tokens with
      | .group .paren content :: _ => content
      | _ => []
    if isOneOf ["crate", "self", "super"] content && content.length = 1 then
      return start ++ (← anyGroup)
    if isWord "in" content then
      return start ++ (← grouped .paren do
        let start ← word "in"
        let (isGlobal, names) ← AttributeReader.modulePath r.fuel
        return start ++ AttributeReader.pathFragments isGlobal names)
    return start
  return []

def anonymousType (fields : Reader Unit) : Reader TypeExpr := do
  let before ← get
  skip 1
  fields
  return .other (← since before)

/-- Reads a field with a name. A field without one may hold fields, which are kept as they
stand. -/
def namedField (r : Readers) : Nat → Reader NamedField
  | 0 => refuse "unexpected token"
  | n + 1 => do
    let attributes ← AttributeReader.outers r
    let visibility ← visibility r
    let isUnnamed ← next (isWord "_")
    let name ← if isUnnamed then anyIdent else ident
    let _ ← mark ":"
    let holdsFields (ts : List Token) : Bool :=
      isUnnamed && (isWord "struct" ts || (isWord "union" ts && isGroup .brace (tail ts)))
    if ← next holdsFields then
      let inner : Reader Unit := do
        let _ ← inGroup .brace (commaSeparated (namedField r n) r.fuel)
      return ⟨attributes, visibility, name, ← anonymousType inner⟩
    return ⟨attributes, visibility, name, ← r.type true⟩

def namedFields (r : Readers) : Reader (List NamedField × Bool) :=
  inGroup .brace (commaSeparated (namedField r r.fuel) r.fuel)

def braced (fields : List NamedField × Bool) : List Fragment :=
  let field (f : NamedField) : List Fragment :=
    AttributeReader.fragments f.attributes ++ f.visibility ++ Fragment.word f.name ++
      Fragment.mark ":" ++ [.type f.type]
  [.group .brace (commas (fields.1.map field, fields.2))]

def unnamedFields (r : Readers) : Reader (List Fragment) :=
  grouped .paren do
    let field : Reader (List Fragment) := do
      let attributes ← AttributeReader.outerFragments r
      let visibility ← visibility r
      return attributes ++ visibility ++ (← r.typeFragment true)
    return commas (← commaSeparated field r.fuel)

/-- Reads a variant of an enum. Its visibility is not kept. -/
def variant (r : Readers) : Reader (List Fragment) := do
  let attributes ← AttributeReader.outerFragments r
  let _ ← visibility r
  let name := Fragment.word (← ident)
  let fields ←
    if ← next (isGroup .brace) then pure (braced (← namedFields r))
    else if ← next (isGroup .paren) then unnamedFields r
    else pure []
  let value ←
    if ← next (startsWith "=") then pure ((← mark "=") ++ (← r.anyExpression).fragments)
    else pure []
  return attributes ++ name ++ fields ++ value

def structBody (r : Readers) : Reader (ItemShape × List NamedField × List Fragment) := do
  let clause ← clause? r
  let mayClause : List String := if clause.isNone then ["`where`"] else []
  if ← next fun ts => clause.isNone && isGroup .paren ts then
    let fields ← unnamedFields r
    let clause ← clause? r
    if ← next (startsWith ";") then
      return (.tupleStruct, [], .withClause fields (clause.getD []) :: (← mark ";"))
    expected ((if clause.isNone then ["`where`"] else []) ++ ["`;`"])
  if ← next (isGroup .brace) then
    let fields ← namedFields r
    return (.struct, fields.1, clause.getD [] ++ braced fields)
  if ← next (startsWith ";") then return (.unitStruct, [], clause.getD [] ++ (← mark ";"))
  expected (mayClause ++ (if clause.isNone then ["parentheses"] else []) ++
    ["curly braces", "`;`"])

def dataType (r : Readers) : Reader DataType := do
  if !(← next (isOneOf ["struct", "enum", "union"])) then
    expected ["`struct`", "`enum`", "`union`"]
  let kind ← anyIdent
  let name ← ident
  let generics ← generics r
  let start := Fragment.word kind ++ Fragment.word name ++ generics
  if kind == "struct" then
    let (shape, fields, body) ← structBody r
    return ⟨name, generics, shape, fields, start ++ body⟩
  let clause := (← clause? r).getD []
  if kind == "enum" then
    let variants ← grouped .brace do return commas (← commaSeparated (variant r) r.fuel)
    return ⟨name, generics, .enum, [], start ++ clause ++ variants⟩
  return ⟨name, generics, .union, [], start ++ clause ++ braced (← namedFields r)⟩

end DataTypeReader

end RecordStore
