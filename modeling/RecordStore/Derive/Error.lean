import RecordStore.Derive.Marker

/-!
Why a declaration has no expansion, and the diagnostic that the compiler is given instead.
-/
namespace RecordStore

inductive ExpansionError where
  | structuralMismatch (name : String) (found : ItemShape)
  | missingType (member : String)
  | unresolvedGenericArgument (argument member : String)
  | unsupportedType (type member : String)
  | duplicatePrimaryKey (member first : String)
  | unsupportedGenerics (name : String)
  | invalidAttribute (errors : List MarkerError)
  deriving DecidableEq, Repr

namespace ItemShape

def describe : ItemShape → String
  | .struct => "a struct"
  | .tupleStruct => "a tuple struct"
  | .unitStruct => "a unit struct"
  | .enum => "an enum"
  | .union => "a union"

end ItemShape

namespace ExpansionError

def message : ExpansionError → String
  | .structuralMismatch name found =>
    "#[derive(GenCrud)] requires a struct with named fields, but `" ++ name ++ "` is " ++
      found.describe
  | .missingType member =>
    "persisted field `" ++ member ++ "` needs an explicit type annotation"
  | .unresolvedGenericArgument argument member =>
    "generic argument `" ++ argument ++ "` of persisted field `" ++ member ++
      "` cannot be resolved to a type"
  | .unsupportedType type member =>
    "persisted field `" ++ member ++ "` has unsupported type `" ++ type ++ "`"
  | .duplicatePrimaryKey member first =>
    "`" ++ member ++ "` cannot be a primary key: `" ++ first ++ "` already is"
  | .unsupportedGenerics name =>
    "#[derive(GenCrud)] does not support generic parameters on `" ++ name ++ "`"
  | .invalidAttribute _ => "invalid #[persisted] attribute"

/-- What the compiler is to report: one text, or one for each thing wrong with a marker. -/
def reports : ExpansionError → List String
  | .invalidAttribute errors => errors.map MarkerError.reason
  | e => [e.message]

/-- A string literal. A NUL before an octal digit is written in full. -/
def stringLiteral (s : String) : Token :=
  let rec go : List Char → String
    | [] => ""
    | '\x00' :: d :: rest =>
      (if '0' ≤ d && d ≤ '7' then "\\x00" else "\\0") ++ go (d :: rest)
    | c :: rest => Escape.char c ++ go rest
  .literal ("\"" ++ go s.toList ++ "\"")

def reportTokens (s : String) : List Token :=
  Token.operator "::" ++ [.ident "core"] ++ Token.operator "::" ++
    [.ident "compile_error", .punct '!' false, .group .brace [stringLiteral s]]

def diagnostic (e : ExpansionError) : List Token := (e.reports.map reportTokens).flatten

end ExpansionError

end RecordStore
