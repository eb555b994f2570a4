import RecordStore.Source.Item
import RecordStore.Source.Literal
import RecordStore.Text.Similarity

/-!
The marker that makes a field persisted. It may stand alone or list flags, each of which is given
a truth value or stands for true; every item of a list that is wrong is reported, in order.
-/
namespace RecordStore

/-- The flags of a persisted field. -/
structure Marker where
  primaryKey : Bool := false
  indexed : Bool := false
  deriving DecidableEq, Repr

inductive Flag where
  | primaryKey
  | indexed
  deriving DecidableEq, Repr

/-- What is wrong with one marker or with one item of its list. -/
inductive MarkerError where
  /-- A field carries a second marker. -/
  | duplicateMarker
  /-- The list of a marker or of a flag is not made of items. -/
  | malformed (message : String) (location : Option Flag)
  /-- A marker or a flag has a form that it does not take. -/
  | unexpectedFormat (format : String) (location : Option Flag)
  | duplicateFlag (flag : Flag)
  | unknownFlag (path : String)
  | unknownValue (value : String) (flag : Flag)
  | unexpectedType (type : String) (flag : Flag)
  deriving DecidableEq, Repr

def Marker.attributeName : String := "persisted"

namespace Flag

def name : Flag → String
  | .primaryKey => "primary_key"
  | .indexed => "indexed"

def ofName? (s : String) : Option Flag :=
  if s = "primary_key" then some .primaryKey
  else if s = "indexed" then some .indexed
  else none

def suggestion? (path : String) : Option String :=
  Similarity.best? ⟨8, 10⟩ path [name .primaryKey, name .indexed]

end Flag

namespace MarkerError

def reason : MarkerError → String
  | .duplicateMarker => "duplicate #[persisted] attribute"
  | .malformed message _ => message
  | .unexpectedFormat format _ => "Unexpected meta-item format `" ++ format ++ "`"
  | .duplicateFlag flag => "Duplicate field `" ++ flag.name ++ "`"
  | .unknownFlag path =>
    "Unknown field: `" ++ path ++ "`. " ++
      (match Flag.suggestion? path with
       | some name => "Did you mean `" ++ name ++ "`?"
       | none => "Available values: `indexed`, `primary_key`")
  | .unknownValue value _ => "Unknown value: `" ++ value ++ "`"
  | .unexpectedType type _ => "Unexpected type `" ++ type ++ "`"

def location : MarkerError → Option Flag
  | .malformed _ location => location
  | .unexpectedFormat _ location => location
  | .unknownValue _ flag => some flag
  | .unexpectedType _ flag => some flag
  | _ => none

def text (e : MarkerError) : String :=
  match e.location with
  | some flag => e.reason ++ " at " ++ flag.name
  | none => e.reason

def summary : List MarkerError → String
  | [e] => e.text
  | es => "Multiple errors: (" ++ ", ".intercalate (es.map text) ++ ")"

end MarkerError

/-- The value given to an item of a marker. -/
inductive ItemValue where
  | bool (value : Bool)
  | string (value : String)
  | other (type : String)
  deriving DecidableEq, Repr

inductive ItemForm where
  | word
  | list (content : List Token)
  | value (value : ItemValue)

inductive MarkerItem where
  | literal
  | named (path : String) (form : ItemForm)

namespace ExpressionKind

def describe : ExpressionKind → String
  | .literal => "lit"
  | .array => "array"
  | .assign => "assign"
  | .async => "async"
  | .await => "await"
  | .binary => "binary"
  | .block => "block"
  | .break_ => "break"
  | .call => "call"
  | .cast => "cast"
  | .closure => "closure"
  | .comparison => "binary"
  | .const => "const"
  | .continue_ => "continue"
  | .field => "field"
  | .forLoop => "for_loop"
  | .if_ => "if"
  | .index => "index"
  | .infer => "infer"
  | .let_ => "let"
  | .loop => "loop"
  | .invocation => "macro"
  | .match_ => "match"
  | .methodCall => "method_call"
  | .paren => "paren"
  | .path => "path"
  | .range => "range"
  | .rawAddress => "unknown"
  | .reference => "reference"
  | .repeat_ => "repeat"
  | .return_ => "return"
  | .struct => "struct"
  | .try_ => "try"
  | .tryBlock => "try_block"
  | .tuple => "tuple"
  | .unary => "unary"
  | .unsafe_ => "unsafe"
  | .verbatim => "verbatim"
  | .while_ => "while"
  | .yield => "yield"

end ExpressionKind

namespace MarkerItem

open Reader

def literalValue : List Token → ItemValue
  | [.ident s] => .bool (s == "true")
  | ts =>
    match ts.getLast? with
    | some (.literal s) =>
      match Literal.kind s with
      | .string value => .string value
      | .byteString => .other "byte string"
      | .nulString => .other "unknown"
      | .byte => .other "byte"
      | .char => .other "char"
      | .int => .other "int"
      | .float => .other "float"
      | .lost => .other "verbatim"
    | _ => .other "unknown"

/-- The value that an expression gives; only a literal is one. -/
def expressionValue (e : Expression) : ItemValue :=
  match e.kind with
  | .literal => literalValue (fragmentTokens e.fragments)
  | kind => .other kind.describe

/-- Reads names with two colons between them; they may be keywords. -/
def names : Nat → Reader (List String)
  | 0 => refuse "expected identifier"
  | n + 1 => do
    let first ← anyIdent
    if ← next (startsWith "::") then
      skip 2
      if ← next isAnyIdent then return first :: (← names n)
      fail "expected path segment after `::`"
    return [first]

def isNamedTruth (ts : List Token) : Bool :=
  isOneOf ["true", "false"] ts && startsWith "=" (tail ts)

def item (r : Readers) : Reader MarkerItem := do
  if ← next fun ts => isLiteral ts && !isNamedTruth ts then
    let _ ← Reader.literal
    return .literal
  if !(← next isAnyIdent) then fail "expected identifier or literal"
  let name := "::".intercalate (← names r.fuel)
  match (← get).tokens with
  | .group _ content :: _ =>
    skip 1
    return .named name (.list content)
  | ts =>
    if startsWith "=" ts then
      skip 1
      return .named name (.value (expressionValue (← AttributeReader.value r)))
    return .named name .word

def list (content : List Token) : Except String (List MarkerItem) :=
  let r := Readers.suffice content
  (whole (commaSeparated (item r) r.fuel) content).map Prod.fst

def flagValue (flag : Flag) : ItemForm → Except MarkerError Bool
  | .word => .ok true
  | .list content =>
    match list content with
    | .error message => .error (.malformed message (some flag))
    | .ok _ => .error (.unexpectedFormat "list" (some flag))
  | .value (.bool b) => .ok b
  | .value (.string s) =>
    if s = "true" then .ok true
    else if s = "false" then .ok false
    else .error (.unknownValue s flag)
  | .value (.other type) => .error (.unexpectedType type flag)

end MarkerItem

namespace Marker

def set (m : Marker) (flag : Flag) (b : Bool) : Marker :=
  match flag with
  | .primaryKey => { m with primaryKey := b }
  | .indexed => { m with indexed := b }

/-- A marker under construction: its flags, the flags named so far, and what is wrong. -/
structure Draft where
  marker : Marker := {}
  named : List Flag := []
  errors : List MarkerError := []

/-- Takes one item into account. A flag counts as named even where its value was wrong. -/
def Draft.add (d : Draft) : MarkerItem → Draft
  | .literal => { d with errors := d.errors ++ [.unexpectedFormat "literal" none] }
  | .named path form =>
    match Flag.ofName? path with
    | none => { d with errors := d.errors ++ [.unknownFlag path] }
    | some flag =>
      if d.named.contains flag then { d with errors := d.errors ++ [.duplicateFlag flag] }
      else
        match MarkerItem.flagValue flag form with
        | .ok b => { d with marker := d.marker.set flag b, named := flag :: d.named }
        | .error e => { d with named := flag :: d.named, errors := d.errors ++ [e] }

def ofItems (items : List MarkerItem) : Except (List MarkerError) Marker :=
  let d := items.foldl Draft.add {}
  if d.errors.isEmpty then .ok d.marker else .error d.errors

def ofForm : AttributeForm → Except (List MarkerError) Marker
  | .word => .ok {}
  | .value => .error [.unexpectedFormat "name-value" none]
  | .list content =>
    match MarkerItem.list content with
    | .error message => .error [.malformed message none]
    | .ok items => ofItems items

def isMarker (a : Attribute) : Bool := !a.isGlobal && a.path == [attributeName]

/-- The marker among the attributes of a field, if there is one. The first marker is read before
a second one is noticed, and a second one is not read. -/
def ofAttributes (attributes : List Attribute) : Except (List MarkerError) (Option Marker) :=
  match attributes.filter isMarker with
  | [] => .ok none
  | [a] => (ofForm a.form).map some
  | a :: _ :: _ =>
    match ofForm a.form with
    | .error es => .error es
    | .ok _ => .error [.duplicateMarker]

end Marker

end RecordStore
