import RecordStore.Source.Token

/-!
Types as written. Only paths, tuples, parentheses, arrays, slices and the placeholder have a shape
of their own; every other type is kept as its tokens with the types inside it marked, which is all
that renaming and printing need. Groups without delimiters are left out: only another macro can put
them around a type, and no text has them.
-/
namespace RecordStore

mutual

inductive TypeExpr where
  /-- The placeholder for a type to be inferred. -/
  | infer
  /-- A path; a global one starts with two colons. -/
  | path (isGlobal : Bool) (segments : List PathSegment)
  | tuple (items : List TypeExpr) (trailingComma : Bool)
  | paren (inner : TypeExpr)
  | array (element : TypeExpr) (length : List Fragment)
  | slice (element : TypeExpr)
  /-- A lone bound that is no path, for any type within it. -/
  | bound (isParenthesized : Bool) (fragments : List Fragment)
  /-- References, pointers, functions, trait objects, invocations and qualified paths. -/
  | other (fragments : List Fragment)

inductive PathSegment where
  | plain (name : String)
  /-- A segment with arguments in angle brackets, perhaps after two colons of its own. -/
  | generic (name : String) (turbofish : Bool) (arguments : List TypeArgument)
      (trailingComma : Bool)

inductive TypeArgument where
  | type (type : TypeExpr)
  | literal (tokens : List Token)
  | lifetime (name : String)
  /-- A block, a binding or a constraint. -/
  | other (fragments : List Fragment)

/-- Tokens with the types among them marked. -/
inductive Fragment where
  | token (token : Token)
  | group (delimiter : Delimiter) (content : List Fragment)
  | type (type : TypeExpr)
  /-- A path that is no type, though its arguments may be. -/
  | path (isGlobal : Bool) (segments : List PathSegment)
  /-- Arguments in angle brackets after two colons. -/
  | arguments (arguments : List TypeArgument) (trailingComma : Bool)
  /-- The type of a receiver, written after a colon only where it is not `Self`. -/
  | receiver (reference : List Token) (type : TypeExpr)
  /-- A part with the clause of predicates that is written after it but goes before it in every
  other respect. -/
  | withClause (part clause : List Fragment)

end

instance : Inhabited TypeExpr := ⟨.infer⟩

def separated (separator : List Token) (trailing : Bool) : List (List Token) → List Token
  | [] => []
  | [ts] => if trailing then ts ++ separator else ts
  | ts :: us :: rest => ts ++ separator ++ separated separator trailing (us :: rest)

def withCommas {α : Type} (trailing : Bool) : List α → List (α × Bool)
  | [] => []
  | [a] => [(a, trailing)]
  | a :: b :: rest => (a, true) :: withCommas trailing (b :: rest)

def listed {α : Type} (comma : α) (needsComma : Bool) : List (List α × Bool) → List α
  | [] => []
  | (item, hasComma) :: rest =>
    (if needsComma then [comma] else []) ++ item ++ (if hasComma then [comma] else []) ++
      listed comma (!hasComma) rest

/-- A list of lifetimes and other items: the lifetimes come first, and each keeps its comma. -/
def lifetimesFirst {α : Type} (comma : α) (trailing : Bool) (items : List (Bool × List α)) :
    List α :=
  let items := withCommas trailing items
  let pick (isLifetime : Bool) : List (List α × Bool) :=
    (items.filter (·.1.1 == isLifetime)).map fun ((_, item), hasComma) => (item, hasComma)
  listed comma false (pick true ++ pick false)

mutual

/-- The tokens of a type. A tuple of one item always has its comma. -/
def TypeExpr.tokens : TypeExpr → List Token
  | .infer => [.ident "_"]
  | .path isGlobal segments => pathTokens isGlobal segments
  | .tuple items trailing =>
    [.group .paren
      (separated [.comma] (trailing || items.length == 1) (itemTokens items))]
  | .paren inner => [.group .paren inner.tokens]
  | .array element length =>
    [.group .bracket (element.tokens ++ .punct ';' false :: fragmentTokens length)]
  | .slice element => [.group .bracket element.tokens]
  | .bound true fragments => [.group .paren (fragmentTokens fragments)]
  | .bound false fragments => fragmentTokens fragments
  | .other fragments => fragmentTokens fragments

def itemTokens : List TypeExpr → List (List Token)
  | [] => []
  | t :: rest => t.tokens :: itemTokens rest

def pathTokens (isGlobal : Bool) (segments : List PathSegment) : List Token :=
  (if isGlobal then Token.operator "::" else []) ++
    separated (Token.operator "::") false (segmentTokens segments)

def PathSegment.tokens : PathSegment → List Token
  | .plain name => [.ident name]
  | .generic name turbofish arguments trailing =>
    .ident name :: (if turbofish then Token.operator "::" else []) ++ .punct '<' false ::
      lifetimesFirst .comma trailing (argumentTokens arguments) ++ [.punct '>' false]

def segmentTokens : List PathSegment → List (List Token)
  | [] => []
  | s :: rest => s.tokens :: segmentTokens rest

def TypeArgument.tokens : TypeArgument → Bool × List Token
  | .type t => (false, t.tokens)
  | .literal ts => (false, ts)
  | .lifetime name => (true, Token.lifetime name)
  | .other fragments => (false, fragmentTokens fragments)

def argumentTokens : List TypeArgument → List (Bool × List Token)
  | [] => []
  | a :: rest => a.tokens :: argumentTokens rest

def Fragment.tokens : Fragment → List Token
  | .token t => [t]
  | .group d content => [.group d (fragmentTokens content)]
  | .type t => t.tokens
  | .path isGlobal segments => pathTokens isGlobal segments
  | .arguments arguments trailing =>
    Token.operator "::" ++ .punct '<' false ::
      lifetimesFirst .comma trailing (argumentTokens arguments) ++ [.punct '>' false]
  | .receiver reference t =>
    if isSelf t then [] else .punct ':' false :: reference ++ t.tokens
  | .withClause part clause => fragmentTokens part ++ fragmentTokens clause

def fragmentTokens : List Fragment → List Token
  | [] => []
  | f :: rest => f.tokens ++ fragmentTokens rest

def isSelf : TypeExpr → Bool
  | .path false [.plain name] => name == "Self"
  | _ => false

end

def TypeExpr.text (t : TypeExpr) : String := Token.textOf t.tokens

namespace Fragment

def ofTokens (ts : List Token) : List Fragment := ts.map .token

def mark (s : String) : List Fragment := ofTokens (Token.operator s)

def word (s : String) : List Fragment := [.token (.ident s)]

def joined (separator : List Fragment) (trailing : Bool) :
    List (List Fragment) → List Fragment
  | [] => []
  | [fs] => if trailing then fs ++ separator else fs
  | fs :: gs :: rest => fs ++ separator ++ joined separator trailing (gs :: rest)

def commas (items : List (List Fragment) × Bool) : List Fragment :=
  joined (mark ",") items.2 items.1

end Fragment

end RecordStore
