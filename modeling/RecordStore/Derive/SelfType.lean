import RecordStore.Source.TypeExpr

/-!
Naming `Self`. Field types are copied into code where `Self` is another type, so it is replaced by
the name of the model wherever it stands for a type of its own. A path that goes through `Self` has
no such name; the first one found is the reason to give up.
-/
namespace RecordStore.SelfType

def word : String := "Self"

def isThrough : List PathSegment → Bool
  | .plain s :: _ :: _ => s == word
  | .generic s .. :: _ :: _ => s == word
  | _ => false

def renamed (model name : String) : String := if name == word then model else name

mutual

def name (model : String) : TypeExpr → Except TypeExpr TypeExpr
  | .infer => .ok .infer
  | .path isGlobal segments =>
    if isGlobal then (nameInSegments model segments).map (.path isGlobal)
    else if isThrough segments then .error (.path isGlobal segments)
    else
      match segments with
      | [.plain s] => .ok (.path isGlobal [.plain (renamed model s)])
      | [.generic s turbofish arguments trailing] => do
        let arguments ← nameInArguments model arguments
        return .path isGlobal [.generic (renamed model s) turbofish arguments trailing]
      | segments => (nameInSegments model segments).map (.path isGlobal)
  | .tuple items trailing => (nameInItems model items).map (.tuple · trailing)
  | .paren inner => (name model inner).map .paren
  | .array element length => do
    let element ← name model element
    return .array element (← nameInFragments model length)
  | .slice element => (name model element).map .slice
  | .bound isParenthesized fragments =>
    (nameInFragments model fragments).map (.bound isParenthesized)
  | .other fragments => (nameInFragments model fragments).map .other

def nameInItems (model : String) : List TypeExpr → Except TypeExpr (List TypeExpr)
  | [] => .ok []
  | t :: rest => do
    let t ← name model t
    return t :: (← nameInItems model rest)

def nameInSegments (model : String) : List PathSegment → Except TypeExpr (List PathSegment)
  | [] => .ok []
  | .plain s :: rest => (nameInSegments model rest).map (.plain s :: ·)
  | .generic s turbofish arguments trailing :: rest => do
    let arguments ← nameInArguments model arguments
    return .generic s turbofish arguments trailing :: (← nameInSegments model rest)

def nameInArguments (model : String) : List TypeArgument → Except TypeExpr (List TypeArgument)
  | [] => .ok []
  | .type t :: rest => do
    let t ← name model t
    return .type t :: (← nameInArguments model rest)
  | .literal ts :: rest => (nameInArguments model rest).map (.literal ts :: ·)
  | .lifetime s :: rest => (nameInArguments model rest).map (.lifetime s :: ·)
  | .other fragments :: rest => do
    let fragments ← nameInFragments model fragments
    return .other fragments :: (← nameInArguments model rest)

def nameInFragments (model : String) : List Fragment → Except TypeExpr (List Fragment)
  | [] => .ok []
  | .token t :: rest => (nameInFragments model rest).map (.token t :: ·)
  | .group d content :: rest => do
    let content ← nameInFragments model content
    return .group d content :: (← nameInFragments model rest)
  | .type t :: rest => do
    let t ← name model t
    return .type t :: (← nameInFragments model rest)
  | .path isGlobal segments :: rest => do
    let segments ← nameInSegments model segments
    return .path isGlobal segments :: (← nameInFragments model rest)
  | .arguments arguments trailing :: rest => do
    let arguments ← nameInArguments model arguments
    return .arguments arguments trailing :: (← nameInFragments model rest)
  | .receiver reference t :: rest => do
    let t ← name model t
    return .receiver reference t :: (← nameInFragments model rest)
  | .withClause part clause :: rest => do
    let clause ← nameInFragments model clause
    let part ← nameInFragments model part
    return .withClause part clause :: (← nameInFragments model rest)

end

end RecordStore.SelfType
