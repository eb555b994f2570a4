import RecordStore.Source.Expression

/-!
Attributes in front of items, fields, statements and expressions. An attribute names a path, and
may go on with a bracketed list, which is not read further, or with a value.
-/
namespace RecordStore

/-- What follows the path of an attribute. -/
inductive AttributeForm where
  | word
  | list (content : List Token)
  | value

/-- An attribute with its tokens. -/
structure Attribute where
  isGlobal : Bool
  path : List String
  form : AttributeForm
  fragments : List Fragment

namespace AttributeReader

open Reader

def isPathName (ts : List Token) : Bool :=
  isIdent ts || isOneOf ["super", "self", "Self", "crate"] ts

def pathNames : Nat → Reader (List String)
  | 0 => refuse "expected identifier"
  | n + 1 => do
    let first ← anyIdent
    if ← next (startsWith "::") then
      skip 2
      if ← next isPathName then return first :: (← pathNames n)
      fail "expected path segment after `::`"
    return [first]

def modulePath (n : Nat) : Reader (Bool × List String) := do
  let isGlobal := !(← mark? "::").isEmpty
  if ← next isPathName then return (isGlobal, ← pathNames n)
  return (isGlobal, [← ident])

def pathFragments (isGlobal : Bool) (names : List String) : List Fragment :=
  [.path isGlobal (names.map .plain)]

/-- Reads the value of an attribute. A number may be negative only where nothing follows it. -/
def value (r : Readers) : Reader Expression := do
  if ← next fun ts => isLiteral ts && ts.length == (literalTokens ts).length then
    return { kind := .literal, fragments := Fragment.ofTokens (← literal) }
  if ← next fun ts => startsWith "#" ts && isGroup .bracket (tail ts) then
    fail "unexpected attribute inside of attribute"
  r.anyExpression

def content (r : Readers) : Reader Attribute := do
  let (isGlobal, path) ←
    if ← next (isWord "unsafe") then pure (false, [← anyIdent]) else modulePath r.fuel
  let start := pathFragments isGlobal path
  match (← get).tokens with
  | .group _ content :: _ => return ⟨isGlobal, path, .list content, start ++ (← anyGroup)⟩
  | ts =>
    if startsWith "=" ts then
      let sign ← mark "="
      return ⟨isGlobal, path, .value, start ++ sign ++ (← value r).fragments⟩
    return ⟨isGlobal, path, .word, start⟩

def outer (r : Readers) : Reader Attribute := do
  let sign ← mark "#"
  let a ← inGroup .bracket (content r)
  return { a with fragments := sign ++ [.group .bracket a.fragments] }

def outers (r : Readers) : Reader (List Attribute) := whileNext (startsWith "#") (outer r) r.fuel

def inner (r : Readers) : Reader (List Fragment) := do
  let signs := (← mark "#") ++ (← mark "!")
  let a ← inGroup .bracket (content r)
  return signs ++ [.group .bracket a.fragments]

def inners (r : Readers) : Reader (List Fragment) :=
  List.flatten <$>
    whileNext (fun ts => startsWith "#" ts && startsWith "!" (tail ts)) (inner r) r.fuel

def fragments (attributes : List Attribute) : List Fragment :=
  (attributes.map Attribute.fragments).flatten

def outerFragments (r : Readers) : Reader (List Fragment) := do return fragments (← outers r)

def body (r : Readers) : Reader (List Fragment) :=
  grouped .brace do return (← inners r) ++ (← r.statements)

end AttributeReader

end RecordStore
