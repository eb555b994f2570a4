import RecordStore.Source.Attribute

/-!
Reading types, and the paths and bounds that they are made of. Each reader here takes the readers
for what is inside it as an argument, so the grammar is a step from one level of nesting to the
next.
-/
namespace RecordStore.TypeReader

open Reader Fragment

def opensArguments (ts : List Token) : Bool := startsWith "<" ts && !startsWith "<=" ts

def opensTurbofish (ts : List Token) : Bool := startsWith "::" ts && startsWith "<" (ts.drop 2)

def opensCall (ts : List Token) : Bool := startsWith "::" ts && isGroup .paren (ts.drop 2)

def arguments (r : Readers) : Reader (List TypeArgument × Bool) := do
  let _ ← mark "<"
  let outcome ← separatedUntil (startsWith ">") "," r.argument r.fuel
  let _ ← mark ">"
  return outcome

/-- Reads one segment of a path; in an expression, arguments need two colons before them. -/
def segment (r : Readers) (inExpression : Bool) : Reader PathSegment := do
  if ← next (isOneOf ["super", "self", "crate", "try"]) then return .plain (← anyIdent)
  let name ← if ← next (isWord "Self") then anyIdent else ident
  if ← next fun ts => (!inExpression && opensArguments ts) || opensTurbofish ts then
    let turbofish := !(← mark? "::").isEmpty
    let (arguments, trailing) ← arguments r
    return .generic name turbofish arguments trailing
  return .plain name

/-- Reads the segments of a path; two colons before parentheses do not continue it. -/
def segments (r : Readers) (inExpression : Bool) : Nat → Reader (List PathSegment)
  | 0 => refuse "expected identifier"
  | n + 1 => do
    let first ← segment r inExpression
    if ← next fun ts => startsWith "::" ts && !opensCall ts then
      skip 2
      return first :: (← segments r inExpression n)
    return [first]

def path (r : Readers) (inExpression : Bool) : Reader (Bool × List PathSegment) := do
  let isGlobal := !(← mark? "::").isEmpty
  return (isGlobal, ← segments r inExpression r.fuel)

def pathFragment (r : Readers) (inExpression : Bool) : Reader (List Fragment) := do
  let (isGlobal, segments) ← path r inExpression
  return [.path isGlobal segments]

def isPlain : PathSegment → Bool
  | .plain _ => true
  | .generic .. => false

def qualifiedRest (r : Readers) (inExpression : Bool) : Nat → Reader (List PathSegment)
  | 0 => refuse "expected identifier"
  | n + 1 => do
    let first ← segment r inExpression
    if ← next (startsWith "::") then
      skip 2
      return first :: (← qualifiedRest r inExpression n)
    return [first]

def qualifiedPath (r : Readers) (inExpression : Bool) : Reader (List Fragment) := do
  let opening ← mark "<"
  let this ← r.typeFragment true
  let asTrait ←
    if ← next (isWord "as") then pure ((← word "as") ++ (← pathFragment r false)) else pure []
  let closing ← mark ">"
  let colons ← mark "::"
  let rest ← qualifiedRest r inExpression r.fuel
  return opening ++ this ++ asTrait ++ closing ++ colons ++ [.path false rest]

/-- Reads the path of an expression or a pattern, and whether plain names are all it is. -/
def anyPath (r : Readers) : Reader (List Fragment × Bool) := do
  if ← next (startsWith "<") then return (← qualifiedPath r true, false)
  let (isGlobal, segments) ← path r true
  return ([.path isGlobal segments], segments.all isPlain)

/-- Whether parameters in angle brackets come next, rather than the type that qualifies a path. -/
def startsParameters (ts : List Token) : Bool :=
  let second := tail ts
  let third := tail second
  startsWith "<" ts && (startsWithAny [">", "#"] second || isWord "const" second ||
    ((isLifetime second || isIdent second) &&
      (startsWithAny [">", ",", "="] third || startsColon third)))

def binder (r : Readers) : Reader (List Fragment) := do
  let start := (← word "for") ++ (← mark "<")
  let parameters ← separatedUntil (startsWith ">") "," r.parameter r.fuel
  return start ++ commas parameters ++ (← mark ">")

def binder? (r : Readers) : Reader (List Fragment) := do
  if ← next (isWord "for") then binder r else return []

def returnType (r : Readers) (plus : Bool) : Reader (List Fragment) := do
  if ← next (startsWith "->") then return (← mark "->") ++ (← r.typeFragment plus) else return []

/-- What stands bounds: the objects of a type, an unnamed type, or a parameter. -/
inductive BoundPlace where
  | object
  | unnamed
  | parameter
  deriving DecidableEq, Repr

def BoundPlace.admitsConst (p : BoundPlace) : Bool := p != .object

/-- A bound in a list of bounds, and whether it names a trait. -/
structure Bound where
  isTrait : Bool
  fragments : List Fragment

/-- The path of a trait, and whether it may take arguments in parentheses. Empty angle brackets
before parentheses vanish. -/
def traitPath (r : Readers) : Reader (List Fragment) := do
  let (isGlobal, segments) ← path r false
  let bare : Option PathSegment := match segments.getLast? with
    | some (.plain name) => some (.plain name)
    | some (.generic name _ [] _) => some (.plain name)
    | _ => none
  match bare with
  | none => return [.path isGlobal segments]
  | some last =>
    if ← next fun ts => isGroup .paren ts || opensCall ts then
      let _ ← mark? "::"
      let parameters ← inGroup .paren (commaSeparated (r.typeFragment true) r.fuel)
      let output ← returnType r false
      return .path isGlobal (segments.dropLast ++ [last]) ::
        .group .paren (commas parameters) :: output
    return [.path isGlobal segments]

def traitBound (r : Readers) (place : BoundPlace) : Reader (Bool × List Fragment) := do
  let outer ← binder? r
  let isBracketed ← next (isGroup .bracket)
  let isConst := isBracketed || (← next (isWord "const"))
  if isBracketed then
    let _ ← inGroup .bracket (word "const")
  else if isConst then skip 1
  if isConst && !place.admitsConst then
    refuse (if isBracketed then "`[const]` is not allowed here" else "`const` is not allowed here")
  let maybe ← mark? "?"
  let inner ← if outer.isEmpty && !maybe.isEmpty then binder? r else pure []
  let name ← traitPath r
  if !maybe.isEmpty && !(outer ++ inner).isEmpty then
    refuse "`for<...>` binder not allowed with `?` trait polarity modifier"
  return (isConst, maybe ++ outer ++ name)

/-- Reads what an unnamed type captures. Lifetimes are written first. -/
def capture (r : Readers) : Reader (List Fragment) := do
  let start := (← word "use") ++ (← mark "<")
  let (items, trailing) ← items r.fuel
  return start ++ ofTokens (lifetimesFirst .comma trailing items) ++ (← mark ">")
where
  items : Nat → Reader (List (Bool × List Token) × Bool)
    | 0 => refuse "unexpected token"
    | n + 1 => do
      if ← next (startsWith ">") then return ([], false)
      let item ←
        if ← next isLifetime then pure (true, Token.lifetime (← lifetime))
        else if ← next fun ts => isIdent ts || isWord "Self" ts then
          pure (false, [.ident (← anyIdent)])
        else expected ["lifetime", "identifier", "`>`"]
      if ← next (startsWith ",") then
        skip 1
        let (rest, trailing) ← items n
        return (item :: rest, rest.isEmpty || trailing)
      if ← next (startsWith ">") then return ([item], false)
      expected ["`,`", "`>`"]

/-- Reads a bound: a lifetime, what is captured, or a trait with what may surround it. A bound for
constant evaluation is kept as it stands. -/
def bound (r : Readers) (place : BoundPlace) : Reader Bound := do
  if ← next isLifetime then return ⟨false, ← lifetime?⟩
  if ← next (isWord "use") then
    let captured ← capture r
    if place = .unnamed then return ⟨false, captured⟩
    refuse "`use<...>` precise capturing syntax is not allowed here"
  let before ← get
  let isParenthesized ← next (isGroup .paren)
  let (isConst, fragments) ←
    if isParenthesized then inGroup .paren (traitBound r place) else traitBound r place
  if isConst then return ⟨true, ← since before⟩
  return ⟨true, if isParenthesized then [.group .paren fragments] else fragments⟩

def startsBound (place : BoundPlace) (ts : List Token) : Bool :=
  isAnyIdent ts || startsWith "::" ts || startsWith "?" ts || isLifetime ts || isGroup .paren ts ||
    (place.admitsConst && isGroup .bracket ts)

def moreBounds (r : Readers) (place : BoundPlace) : Nat → Reader (List Bound)
  | 0 => pure []
  | n + 1 => do
    if ← next (startsWith "+") then
      let plus ← mark "+"
      if ← next (startsBound place) then
        let b ← bound r place
        return ⟨b.isTrait, plus ++ b.fragments⟩ :: (← moreBounds r place n)
      return [⟨false, plus⟩]
    return []

def boundFragments (bounds : List Bound) : List Fragment := (bounds.map Bound.fragments).flatten

def bounds (r : Readers) (place : BoundPlace) (plus : Bool) : Reader (List Fragment) := do
  let first ← bound r place
  let all := first :: (← if plus then moreBounds r place r.fuel else pure [])
  if all.any Bound.isTrait then return boundFragments all
  refuse (if place = .object then "at least one trait is required for an object type"
    else "at least one trait must be specified")

def addedBounds (r : Readers) : Nat → Reader (List Fragment)
  | 0 => pure []
  | n + 1 => do
    if ← next (startsWith "+") then
      let plus ← mark "+"
      let b ← bound r .object
      return plus ++ b.fragments ++ (← addedBounds r n)
    return []

/-- Reads items with plus signs between them up to an end, or up to where no plus sign follows. -/
def summedUntil (isEnd : List Token → Bool) (item : Reader (List Fragment)) :
    Nat → Reader (List Fragment)
  | 0 => pure []
  | n + 1 => do
    if ← next isEnd then return []
    let x ← item
    if ← next (startsWith "+") then return x ++ (← mark "+") ++ (← summedUntil isEnd item n)
    return x

def parameterBounds (r : Readers) (isEnd : List Token → Bool) : Reader (List Fragment) :=
  summedUntil isEnd (Bound.fragments <$> bound r .parameter) r.fuel

def constArgument (r : Readers) : Reader (List Fragment) := do
  if ← next isLiteral then return ofTokens (← literal)
  if ← next isIdent then return Fragment.word (← ident)
  if ← next (isGroup .brace) then AttributeReader.body r else expected []

def startsConst (ts : List Token) : Bool := isLiteral ts || isGroup .brace ts

def argument (r : Readers) : Reader TypeArgument := do
  if ← next fun ts => isLifetime ts && !startsWith "+" (tail ts) then
    return .lifetime (← lifetime)
  if ← next isLiteral then return .literal (← literal)
  if ← next startsConst then return .other (← constArgument r)
  let t ← r.type true
  match t with
  | .path false [segment] =>
    let name : List Fragment := [.path false [segment]]
    if ← next (startsWith "=") then
      let sign ← mark "="
      let value ← if ← next startsConst then constArgument r else r.typeFragment true
      return .other (name ++ sign ++ value)
    if ← next (startsWith ":") then
      let colon ← mark ":"
      let bounds ← parameterBounds r fun ts => startsWith "," ts || startsWith ">" ts
      return .other (name ++ colon ++ bounds)
    return .type t
  | t => return .type t

def introduced (start : List Fragment) (fs : List Fragment) : List Fragment :=
  if fs.isEmpty then [] else start ++ fs

def lifetimeParameter (r : Readers) : Reader (List Fragment) := do
  let name := ofTokens (Token.lifetime (← lifetime))
  if ← next (startsWith ":") then
    let colon ← mark ":"
    let isEnd (ts : List Token) : Bool := ts.isEmpty || startsWith "," ts || startsWith ">" ts
    let bounds ← summedUntil isEnd (do return ofTokens (Token.lifetime (← lifetime))) r.fuel
    return name ++ introduced colon bounds
  return name

def typeParameter (r : Readers) : Reader (List Fragment) := do
  let name := Fragment.word (← ident)
  let colon ← mark? ":"
  let bounds ←
    if colon.isEmpty then pure [] else parameterBounds r (startsWithAny [",", ">", "="])
  let default ←
    if ← next (startsWith "=") then pure ((← mark "=") ++ (← r.typeFragment true)) else pure []
  return name ++ introduced colon bounds ++ default

def constParameter (r : Readers) : Reader (List Fragment) := do
  let start := (← word "const") ++ Fragment.word (← ident) ++ (← mark ":")
  let type ← r.typeFragment true
  let default ←
    if ← next (startsWith "=") then pure ((← mark "=") ++ (← constArgument r)) else pure []
  return start ++ type ++ default

def parameter (r : Readers) : Reader (List Fragment) := do
  let attributes ← AttributeReader.outerFragments r
  let rest ←
    if ← next isIdent then typeParameter r
    else if ← next isLifetime then lifetimeParameter r
    else if ← next (isWord "const") then constParameter r
    else expected ["identifier", "lifetime", "`const`"]
  return attributes ++ rest

def variadic (attributes : List Fragment) : Reader (List Fragment) := do
  let name ←
    if ← next fun ts => isIdent ts || isWord "_" ts then
      pure (Fragment.word (← anyIdent) ++ (← mark ":"))
    else pure []
  return attributes ++ name ++ (← mark "...") ++ (← mark? ",")

def startsMutSelf (ts : List Token) : Bool := isWord "mut" ts && isWord "self" (tail ts)

/-- Reads a parameter of a function type after its attributes: a type, perhaps after a name. The
first one may be a receiver, and is kept as it stands if the receiver can change. -/
def functionParameter (r : Readers) (isFirst : Bool) : Reader (List Fragment) := do
  let before ← get
  let isMut ← next fun ts => isFirst && startsMutSelf ts
  if isMut then skip 1
  let isNamed ← next fun ts =>
    (isIdent ts || isWord "_" ts || (isFirst && isWord "self" ts)) && startsColon (tail ts)
  let isSelf ← next fun ts => isNamed && !isIdent ts && isWord "self" ts
  let name ← if isNamed then pure (Fragment.word (← anyIdent) ++ (← mark ":")) else pure []
  if ← next fun ts => isFirst && !isSelf && startsMutSelf ts then
    skip 2
    since before
  else if isMut && !isNamed then
    let _ ← word "self"
    since before
  else
    let type ← r.typeFragment true
    if isMut then since before else return name ++ type

def startsVariadic (ts : List Token) : Bool :=
  startsWith "..." ts || ((isIdent ts || isWord "_" ts) && startsWith ":" (tail ts) &&
    startsWith "..." (tail (tail ts)))

def functionParameters (r : Readers) (isFirst : Bool) : Nat → Reader (List Fragment)
  | 0 => pure []
  | n + 1 => do
    if ← atEnd then return []
    let attributes ← AttributeReader.outerFragments r
    if ← next startsVariadic then variadic attributes
    else
      let parameter := attributes ++ (← functionParameter r isFirst)
      if ← atEnd then return parameter
      return parameter ++ (← mark ",") ++ (← functionParameters r false n)

def convention? : Reader (List Fragment) := do
  if ← next (isWord "extern") then
    let start ← word "extern"
    if ← next isString then return start ++ ofTokens (← literal)
    return start
  return []

def functionType (r : Readers) : Reader (List Fragment) := do
  let start := (← word? "unsafe") ++ (← convention?) ++ (← word "fn")
  let parameters ← grouped .paren (functionParameters r true r.fuel)
  return start ++ parameters ++ (← returnType r false)

/-- Reads a type that starts with parentheses. In a sum of bounds the parentheses belong to the
first bound. -/
def parenthesized (r : Readers) (plus : Bool) : Reader TypeExpr := do
  let content : Reader TypeExpr := do
    if ← atEnd then return .tuple [] false
    if ← next isLifetime then return .paren (.other (← bounds r .object true))
    if ← next (startsWith "?") then return .bound true (← traitBound r .object).2
    let first ← r.type true
    if ← next (startsWith ",") then
      skip 1
      let (rest, trailing) ← commaSeparated (r.type true) r.fuel
      return .tuple (first :: rest) (trailing || rest.isEmpty)
    return .paren first
  match ← inGroup .paren content with
  | .bound isParenthesized first =>
    let more ← addedBounds r r.fuel
    if more.isEmpty then return .bound isParenthesized first
    return .other (.group .paren first :: more)
  | .paren first =>
    let asBound : Option (List Fragment) := match first with
      | .path isGlobal segments => some [.path isGlobal segments]
      | .bound _ fragments => some fragments
      | _ => none
    match asBound with
    | none => return .paren first
    | some fragments =>
      if ← next fun ts => plus && startsWith "+" ts then
        return .other (.group .paren fragments :: (← addedBounds r r.fuel))
      return .paren first
  | t => return t

def bracketed (r : Readers) : Reader TypeExpr :=
  inGroup .bracket do
    let element ← r.type true
    if ← next (startsWith ";") then
      skip 1
      return .array element (← r.anyExpression).fragments
    return .slice element

def pathType (r : Readers) (plus : Bool) (binder : List Fragment) : Reader TypeExpr := do
  if ← next (startsWith "<") then return .other (← qualifiedPath r false)
  let (isGlobal, segments) ← path r false
  let name : List Fragment := [.path isGlobal segments]
  if ← next fun ts => startsBang ts && segments.all isPlain then
    return .other (name ++ (← mark "!") ++ (← anyGroup))
  if ← next fun ts => plus && startsWith "+" ts then
    return .other (binder ++ name ++ boundFragments (← moreBounds r .object r.fuel))
  if binder.isEmpty then return .path isGlobal segments
  return .bound false (binder ++ name)

def starts : List String :=
  ["`for`", "parentheses", "`fn`", "`unsafe`", "`extern`", "identifier", "`::`", "`<`", "`dyn`",
    "square brackets", "`*`", "`&`", "`!`", "`impl`", "`_`", "lifetime"]

def startsBound? : List String :=
  ["identifier", "`fn`", "`unsafe`", "`extern`", "`super`", "`self`", "`Self`", "`crate`"]

def startsBuiltin (ts : List Token) : Bool := isWord "builtin" ts && startsWith "#" (tail ts)

def builtin : Reader Unit := do
  skip 2
  let _ ← ident
  let _ ← group .paren

def step (r : Readers) (plus : Bool) : Reader TypeExpr := do
  let before ← get
  let binder ← binder? r
  let isName (ts : List Token) : Bool :=
    isIdent ts || isOneOf ["super", "self", "Self", "crate"] ts
  let isFunction := isOneOf ["fn", "unsafe", "extern"]
  if ← next fun ts => !binder.isEmpty && !isName ts && !isFunction ts then expected startsBound?
  if ← next (isGroup .paren) then parenthesized r plus
  else if ← next isFunction then return .other (binder ++ (← functionType r))
  else if ← next startsBuiltin then
    builtin
    return .other (← since before)
  else if ← next fun ts => isName ts || startsWithAny ["::", "<"] ts then pathType r plus binder
  else if ← next (isWord "dyn") then
    let start ← word "dyn"
    let isStar := !(← mark? "*").isEmpty
    let inner ← bounds r .object plus
    if isStar then return .other (← since before)
    return .other (start ++ inner)
  else if ← next (isGroup .bracket) then bracketed r
  else if ← next (startsWith "*") then
    let star ← mark "*"
    if ← next (!isOneOf ["const", "mut"] ·) then expected ["`const`", "`mut`"]
    return .other (star ++ Fragment.word (← anyIdent) ++ (← r.typeFragment false))
  else if ← next (startsWith "&") then
    return .other
      ((← mark "&") ++ (← lifetime?) ++ (← word? "mut") ++ (← r.typeFragment false))
  else if ← next (startsWith "!") then return .other (← mark "!")
  else if ← next (isWord "impl") then
    return .other ((← word "impl") ++ (← bounds r .unnamed plus))
  else if ← next (isWord "_") then
    skip 1
    return .infer
  else if ← next isLifetime then return .other (← bounds r .object true)
  else expected starts

end RecordStore.TypeReader
