import RecordStore.Derive.Error

/-!
Signatures of the types that fields can store: owned types built from paths, tuples, arrays and
slices. Parentheses, trailing commas and the colons before arguments do not show in a signature. Nor
would a group without delimiters, which types as written do not have: such a type has the signature
of what is in the group.
-/
namespace RecordStore

mutual

inductive Signature where
  | path (isGlobal : Bool) (names : List String) (arguments : List SignatureArgument)
  | tuple (items : List Signature)
  | array (element : Signature) (length : String)
  | slice (element : Signature)

inductive SignatureArgument where
  | type (signature : Signature)
  | const (text : String)

end

namespace Signature

mutual

/-- The text of a signature. A tuple of one item keeps its comma. -/
def text : Signature → String
  | .path isGlobal names arguments =>
    (if isGlobal then "::" else "") ++ "::".intercalate names ++
      (if arguments.isEmpty then "" else "<" ++ ", ".intercalate (argumentTexts arguments) ++ ">")
  | .tuple items =>
    if items.length = 1 then "(" ++ ", ".intercalate (texts items) ++ ",)"
    else "(" ++ ", ".intercalate (texts items) ++ ")"
  | .array element length => "[" ++ element.text ++ "; " ++ length ++ "]"
  | .slice element => "[" ++ element.text ++ "]"

def texts : List Signature → List String
  | [] => []
  | s :: rest => s.text :: texts rest

def argumentText : SignatureArgument → String
  | .type s => s.text
  | .const s => s

def argumentTexts : List SignatureArgument → List String
  | [] => []
  | a :: rest => argumentText a :: argumentTexts rest

end

def segmentName : PathSegment → String
  | .plain name => name
  | .generic name .. => name

def hasInnerArguments : List PathSegment → Bool
  | [] => false
  | [_] => false
  | .generic .. :: _ => true
  | .plain _ :: rest => hasInnerArguments rest

mutual

def resolve (member : String) : TypeExpr → Except ExpansionError Signature
  | .infer => .error (.missingType member)
  | .paren inner => resolve member inner
  | .path isGlobal segments =>
    if hasInnerArguments segments then
      .error (.unsupportedType (TypeExpr.path isGlobal segments).text member)
    else (resolveLast member segments).map (.path isGlobal (segments.map segmentName))
  | .tuple items _ => (resolveItems member items).map .tuple
  | .array element length =>
    (resolve member element).map (.array · (Token.textOf (fragmentTokens length)))
  | .slice element => (resolve member element).map .slice
  | .bound isParenthesized fragments =>
    .error (.unsupportedType (TypeExpr.bound isParenthesized fragments).text member)
  | .other fragments =>
    .error (.unsupportedType (TypeExpr.other fragments).text member)

def resolveItems (member : String) : List TypeExpr → Except ExpansionError (List Signature)
  | [] => .ok []
  | t :: rest => do
    let s ← resolve member t
    return s :: (← resolveItems member rest)

def resolveLast (member : String) :
    List PathSegment → Except ExpansionError (List SignatureArgument)
  | [] => .ok []
  | [.plain _] => .ok []
  | [.generic _ _ arguments _] => resolveArguments member arguments
  | _ :: rest => resolveLast member rest

def resolveArguments (member : String) :
    List TypeArgument → Except ExpansionError (List SignatureArgument)
  | [] => .ok []
  | a :: rest => do
    let s ← resolveArgument member a
    return s :: (← resolveArguments member rest)

def resolveArgument (member : String) : TypeArgument → Except ExpansionError SignatureArgument
  | .type .infer => .error (.unresolvedGenericArgument "_" member)
  | .type t => (resolve member t).map .type
  | .literal ts => .ok (.const (Token.textOf ts))
  | .lifetime name =>
    .error (.unresolvedGenericArgument (Token.textOf (Token.lifetime name)) member)
  | .other fragments =>
    .error (.unresolvedGenericArgument (Token.textOf (fragmentTokens fragments)) member)

end

end Signature

end RecordStore
