import RecordStore.Source.PatternReader

/-!
Reading expressions. An operand is an atom with the signs before it and the calls, members and
indices after it; binary operators, ranges and casts follow it as long as they bind tightly enough.
In a condition a struct literal is not read, since its brace starts a block.
-/
namespace RecordStore.ExpressionReader

open Reader Fragment TypeReader

def binaryOperators : List (String × Rank) :=
  [("<<=", .assign), (">>=", .assign), ("&&", .and), ("||", .or), ("<<", .shift),
    (">>", .shift), ("+=", .assign), ("-=", .assign), ("*=", .assign), ("/=", .assign),
    ("%=", .assign), ("^=", .assign), ("&=", .assign), ("|=", .assign), ("==", .compare),
    ("<=", .compare), ("!=", .compare), (">=", .compare), ("+", .sum), ("-", .sum),
    ("*", .product), ("/", .product), ("%", .product), ("^", .bitXor), ("&", .bitAnd),
    ("|", .bitOr), ("<", .compare), (">", .compare)]

def binaryOperator? (ts : List Token) : Option (String × Rank) :=
  binaryOperators.find? fun o => startsWith o.1 ts

def listIn (d : Delimiter) (r : Readers) : Reader (List Fragment) :=
  grouped d do return commas (← commaSeparated (Expression.fragments <$> r.anyExpression) r.fuel)

def startsValue (ts : List Token) : Bool :=
  let but (sign : String) (others : List String) : Bool :=
    startsWith sign ts && !startsWithAny others ts
  (isAnyIdent ts && !isWord "as" ts) || isGroup .paren ts || isGroup .bracket ts ||
    isGroup .brace ts || isLiteral ts || but "!" ["!="] || but "-" ["-=", "->"] ||
    but "*" ["*="] || but "|" ["|="] || but "&" ["&="] || but "<" ["<=", "<<="] ||
    startsWithAny ["..", "::", "#"] ts || isLifetime ts

/-- Reads the two or three points of a range, and says whether its end belongs to it. -/
def rangeLimits : Reader (Bool × List Fragment) := do
  if ← next (startsWith "..=") then return (true, ← mark "..=")
  if ← next (startsWith "...") then expected ["`..=`"]
  return (false, ← mark "..")

def endsRange (structs : Bool) (ts : List Token) : Bool :=
  ts.isEmpty || startsPoint ts || (!structs && isGroup .brace ts) || isWord "as" ts ||
    startsWithAny [",", ";", "?", "=", "+", "/", "%", "^", ">", "<=", "!=", "-=", "*=", "&=",
      "|=", "<<="] ts

def rangeRest (r : Readers) (structs : Bool) : Reader (List Fragment) := do
  let (isClosed, limits) ← rangeLimits
  if ← next fun ts => !isClosed && endsRange structs ts then return limits
  return limits ++ (← r.expression structs Rank.range.onRight).fragments

def afterCast? (ts : List Token) : Option String :=
  let name := tail ts
  let after := tail name
  if startsPoint ts then
    if isWord "await" name then some "`.await`"
    else if isIdent name && (isGroup .paren after || startsWith "::" after) then
      some "a method call"
    else some "a field access"
  else if startsWith "?" ts then some "`?`"
  else if isGroup .bracket ts then some "indexing"
  else if isGroup .paren ts then some "a function call"
  else none

def castRest (r : Readers) : Reader (List Fragment) := do
  let cast := (← word "as") ++ (← r.typeFragment false)
  match afterCast? (← get).tokens with
  | some what => fail ("casts cannot be followed by " ++ what)
  | none => return cast

/-- Reads what may follow an expression as long as it binds tightly enough. A range takes nothing
after it, and comparisons do not chain. -/
def extend (r : Readers) (structs : Bool) (base : Rank) (e : Expression) :
    Nat → Reader Expression
  | 0 => pure e
  | n + 1 => do
    if e.kind = .range then return e
    match binaryOperator? (← get).tokens with
    | some (sign, rank) =>
      if rank.level < base.level then return e
      if rank = .compare && e.kind = .comparison then
        fail "comparison operators cannot be chained"
      let rest := (← mark sign) ++ (← r.expression structs rank.onRight).fragments
      let kind := if rank = .compare then .comparison else .binary
      extend r structs base ⟨kind, e.fragments ++ rest, e.startsVerbatim⟩ n
    | none =>
      if ← next fun ts => base = .assign && startsEquals ts then
        let rest := (← mark "=") ++ (← r.expression structs .assign).fragments
        extend r structs base ⟨.assign, e.fragments ++ rest, e.startsVerbatim⟩ n
      else if ← next fun ts => base.level ≤ Rank.range.level && startsWith ".." ts then
        let rest ← rangeRest r structs
        extend r structs base ⟨.range, e.fragments ++ rest, false⟩ n
      else if ← next fun ts => base.level ≤ Rank.cast.level && isWord "as" ts then
        let rest ← castRest r
        extend r structs base ⟨.cast, e.fragments ++ rest, e.startsVerbatim⟩ n
      else return e

def selection (r : Readers) (start : List Fragment) : Reader Expression := do
  if ← next (isWord "await") then return ⟨.await, start ++ (← word "await"), false⟩
  let (isNamed, name) ← Member.read
  let types ←
    if ← next fun ts => isNamed && startsWith "::" ts then
      skip 2
      let (types, trailing) ← arguments r
      pure [Fragment.arguments types trailing]
    else pure []
  if ← next fun ts => !types.isEmpty || (isNamed && isGroup .paren ts) then
    return ⟨.methodCall, start ++ name ++ types ++ (← listIn .paren r), false⟩
  return ⟨.field, start ++ name, false⟩

def afterPoint (r : Readers) (e : Expression) : Reader Expression := do
  let start := e.fragments ++ (← mark ".")
  match ← Member.places? with
  | none => selection r start
  | some (places, false) => return ⟨.field, start ++ places, false⟩
  | some (places, true) => selection r (start ++ places ++ Fragment.mark ".")

def trailers (r : Readers) (e : Expression) : Nat → Reader Expression
  | 0 => pure e
  | n + 1 => do
    if ← next (isGroup .paren) then
      let call ← listIn .paren r
      trailers r ⟨.call, e.fragments ++ call, false⟩ n
    else if ← next fun ts => e.kind ≠ .range && startsPoint ts then
      trailers r (← afterPoint r e) n
    else if ← next (isGroup .bracket) then
      let index ← grouped .bracket (Expression.fragments <$> r.anyExpression)
      trailers r ⟨.index, e.fragments ++ index, false⟩ n
    else if ← next fun ts => e.kind ≠ .range && startsWith "?" ts then
      let sign ← mark "?"
      trailers r ⟨.try_, e.fragments ++ sign, false⟩ n
    else return e

def parenthesized (r : Readers) : Reader Expression := do
  let (items, trailing) ←
    inGroup .paren (commaSeparated (Expression.fragments <$> r.anyExpression) r.fuel)
  let kind : ExpressionKind := if items.length = 1 && !trailing then .paren else .tuple
  return ⟨kind, [.group .paren (commas (items, trailing))], false⟩

def array (r : Readers) : Reader Expression :=
  inGroup .bracket do
    let content (fs : List Fragment) : List Fragment := [.group .bracket fs]
    if ← atEnd then return ⟨.array, content [], false⟩
    let first := (← r.anyExpression).fragments
    if ← next (startsWith ";") then
      let rest := (← mark ";") ++ (← r.anyExpression).fragments
      return ⟨.repeat_, content (first ++ rest), false⟩
    if ← atEnd then return ⟨.array, content first, false⟩
    if ← next (startsWith ",") then
      skip 1
      let (rest, trailing) ← commaSeparated (Expression.fragments <$> r.anyExpression) r.fuel
      let items := commas (first :: rest, trailing || rest.isEmpty)
      return ⟨.array, content items, false⟩
    fail "expected `,` or `;`"

/-- Reads one field of a struct literal. A field named by its place needs a value. -/
def structField (r : Readers) : Reader (List Fragment) := do
  let attributes ← AttributeReader.outerFragments r
  let (isNamed, name) ← Member.read
  if ← next fun ts => !isNamed || startsWith ":" ts then
    return attributes ++ name ++ (← mark ":") ++ (← r.anyExpression).fragments
  return attributes ++ name

/-- Reads the fields of a struct literal, up to the value that the rest is taken from. -/
def structFields (r : Readers) : Nat → Reader (List Fragment)
  | 0 => pure []
  | n + 1 => do
    if ← atEnd then return []
    if ← next (startsWith "..") then
      let points ← mark ".."
      if ← atEnd then return points
      return points ++ (← r.anyExpression).fragments
    let field ← structField r
    if ← atEnd then return field
    return field ++ (← mark ",") ++ (← structFields r n)

def pathExpression (r : Readers) (structs : Bool) : Reader Expression := do
  let (name, isPlain) ← anyPath r
  if ← next fun ts => isPlain && startsBang ts then
    return ⟨.invocation, name ++ (← mark "!") ++ (← anyGroup), false⟩
  if ← next fun ts => structs && isGroup .brace ts then
    return ⟨.struct, name ++ (← grouped .brace (structFields r r.fuel)), false⟩
  return ⟨.path, name, false⟩

def closureParameter (r : Readers) : Reader (List Fragment) := do
  let attributes ← AttributeReader.outerFragments r
  let pattern ← r.pattern
  if ← next (startsWith ":") then
    return attributes ++ pattern.fragments ++ (← mark ":") ++ (← r.typeFragment true)
  return if pattern.kind = .verbatim then pattern.fragments else attributes ++ pattern.fragments

/-- Reads a closure. One that gives its type has a block for its body. -/
def closure (r : Readers) (structs : Bool) : Reader Expression := do
  let words := (← binder? r) ++ (← word? "const") ++ (← word? "static") ++ (← word? "async") ++
    (← word? "move")
  let opening ← mark "|"
  let parameters ← separatedUntil (startsWith "|") "," (closureParameter r) r.fuel
  let start := words ++ opening ++ commas parameters ++ (← mark "|")
  if ← next (startsWith "->") then
    return ⟨.closure, start ++ (← returnType r true) ++ (← r.block), false⟩
  return ⟨.closure, start ++ (← r.expression structs .assign).fragments, false⟩

def carried (r : Readers) : Reader (List Fragment) := do
  if ← next startsValue then return (← r.anyExpression).fragments else return []

/-- Reads the end of a loop or a block. A labelled loop is no value for it; where a brace starts a
block, neither is anything in braces, but within the value braces are free again. -/
def break_ (r : Readers) (structs : Bool) : Reader Expression := do
  let start ← word "break"
  if ← next fun ts => isLifetime ts && startsWith ":" (tail ts) then
    let _ ← r.anyExpression
    refuse "parentheses required"
  let label ← lifetime?
  let value ←
    if ← next fun ts => startsValue ts && (structs || !isGroup .brace ts) then
      pure (← r.anyExpression).fragments
    else pure []
  return ⟨.break_, start ++ label ++ value, false⟩

def binding (r : Readers) (structs : Bool) : Reader Expression := do
  let start := (← word "let") ++ (← PatternReader.alternatives r).fragments ++ (← mark "=")
  return ⟨.let_, start ++ (← r.expression structs .compare).fragments, false⟩

def condition (r : Readers) : Reader (List Fragment) :=
  Expression.fragments <$> r.expression false .assign

def conditional (r : Readers) : Nat → Reader (List Fragment)
  | 0 => refuse "expected an expression"
  | n + 1 => do
    let start := (← word "if") ++ (← condition r) ++ (← r.block)
    if ← next (isWord "else") then
      let start := start ++ (← word "else")
      if ← next (isWord "if") then return start ++ (← conditional r n)
      if ← next (isGroup .brace) then return start ++ (← r.block)
      expected ["`if`", "curly braces"]
    return start

/-- Reads one arm of a match. Its comma may be left out at the end and after a block. -/
def arm (r : Readers) : Reader (List Fragment) := do
  let attributes ← AttributeReader.outerFragments r
  let pattern ← PatternReader.alternatives r
  let guard ←
    if ← next (isWord "if") then pure ((← word "if") ++ (← r.anyExpression).fragments)
    else pure []
  let arrow ← mark "=>"
  let body ← r.bounded
  let comma ← if ← next fun ts => body.needsComma && !ts.isEmpty then mark "," else mark? ","
  return attributes ++ pattern.fragments ++ guard ++ arrow ++ body.fragments ++ comma

def match_ (r : Readers) : Reader Expression := do
  let start := (← word "match") ++ (← condition r)
  let arms ← grouped .brace do
    return (← AttributeReader.inners r) ++ (← whileNext (!·.isEmpty) (arm r) r.fuel).flatten
  return ⟨.match_, start ++ arms, false⟩

def startsLoopOrBlock (ts : List Token) : Bool :=
  isOneOf ["while", "for", "loop"] ts || isGroup .brace ts

def loopOrBlock (r : Readers) : Reader Expression := do
  if ← next (isWord "while") then
    return ⟨.while_, (← word "while") ++ (← condition r) ++ (← AttributeReader.body r), false⟩
  if ← next (isWord "for") then
    let start := (← word "for") ++ (← PatternReader.alternatives r).fragments ++ (← word "in")
    return ⟨.forLoop, start ++ (← condition r) ++ (← AttributeReader.body r), false⟩
  if ← next (isWord "loop") then
    return ⟨.loop, (← word "loop") ++ (← AttributeReader.body r), false⟩
  return ⟨.block, ← AttributeReader.body r, false⟩

def labelled (r : Readers) : Reader Expression := do
  let label := ofTokens (Token.lifetime (← lifetime)) ++ (← mark ":")
  if ← next startsLoopOrBlock then
    let e ← loopOrBlock r
    return { e with fragments := label ++ e.fragments }
  fail "expected loop or block expression"

def startsAsyncBlock (ts : List Token) : Bool :=
  let after := tail ts
  isWord "async" ts &&
    (isGroup .brace after || (isWord "move" after && isGroup .brace (tail after)))

def startsClosure (ts : List Token) : Bool :=
  let after := tail ts
  startsWith "|" ts || isOneOf ["move", "static"] ts ||
    (isWord "for" ts && startsParameters after) || (isWord "const" ts && !isGroup .brace after) ||
    (isWord "async" ts && (startsWith "|" after || isWord "move" after))

def startsPath (ts : List Token) : Bool :=
  isIdent ts || startsWithAny ["::", "<"] ts || isOneOf ["self", "Self", "super", "crate"] ts ||
    (isWord "try" ts && startsWithAny ["!", "::"] (tail ts))

def startsBlockAfter (w : String) (ts : List Token) : Bool :=
  isWord w ts && isGroup .brace (tail ts)

def atom (r : Readers) (structs : Bool) : Reader Expression := do
  let before ← get
  if ← next isLiteral then return ⟨.literal, ofTokens (← literal), false⟩
  else if ← next startsAsyncBlock then
    return ⟨.async, (← word "async") ++ (← word? "move") ++ (← r.block), false⟩
  else if ← next (startsBlockAfter "try") then
    return ⟨.tryBlock, (← word "try") ++ (← r.block), false⟩
  else if ← next startsClosure then closure r structs
  else if ← next startsBuiltin then
    builtin
    return ⟨.verbatim, ← since before, true⟩
  else if ← next startsPath then pathExpression r structs
  else if ← next (isGroup .paren) then parenthesized r
  else if ← next (isWord "break") then break_ r structs
  else if ← next (isWord "continue") then
    return ⟨.continue_, (← word "continue") ++ (← lifetime?), false⟩
  else if ← next (isWord "return") then
    return ⟨.return_, (← word "return") ++ (← carried r), false⟩
  else if ← next (isWord "become") then
    skip 1
    let _ ← r.anyExpression
    return ⟨.verbatim, ← since before, true⟩
  else if ← next (isGroup .bracket) then array r
  else if ← next (isWord "let") then binding r structs
  else if ← next (isWord "if") then return ⟨.if_, ← conditional r r.fuel, false⟩
  else if ← next startsLoopOrBlock then loopOrBlock r
  else if ← next (isWord "match") then match_ r
  else if ← next (isWord "yield") then
    return ⟨.yield, (← word "yield") ++ (← carried r), false⟩
  else if ← next (isWord "unsafe") then
    return ⟨.unsafe_, (← word "unsafe") ++ (← AttributeReader.body r), false⟩
  else if ← next (isWord "const") then
    return ⟨.const, (← word "const") ++ (← AttributeReader.body r), false⟩
  else if ← next (startsWith "..") then return ⟨.range, ← rangeRest r structs, false⟩
  else if ← next (isWord "_") then return ⟨.infer, ← word "_", false⟩
  else if ← next isLifetime then labelled r
  else fail "expected an expression"

def operand (r : Readers) (structs : Bool) : Reader Expression := do
  let before ← get
  let attributes ← AttributeReader.outerFragments r
  if ← next (startsWith "&") then
    let sign ← mark "&"
    let isRaw ← next fun ts => isWord "raw" ts && isOneOf ["mut", "const"] (tail ts)
    let mode ← if isRaw then pure ((← word "raw") ++ Fragment.word (← anyIdent)) else word? "mut"
    let inner ← r.expression structs .operand
    let kind : ExpressionKind := if isRaw then .rawAddress else .reference
    return ⟨kind, attributes ++ sign ++ mode ++ inner.fragments, false⟩
  if let some sign := ["*", "!", "-"].find? (startsWith · (← get).tokens) then
    let sign ← mark sign
    let inner ← r.expression structs .operand
    return ⟨.unary, attributes ++ sign ++ inner.fragments, false⟩
  let e ← trailers r (← atom r structs) r.fuel
  if e.kind = .verbatim then return { e with fragments := ← since before }
  if e.kind = .range && !attributes.isEmpty then
    refuse "attributes are not allowed on range expressions starting with `..`"
  return { e with fragments := attributes ++ e.fragments }

def step (r : Readers) (structs : Bool) (rank : Rank) : Reader Expression := do
  extend r structs rank (← operand r structs) r.fuel

def startsBounded (ts : List Token) : Bool :=
  (isOneOf ["if", "while", "loop", "match", "unsafe"] ts || isGroup .brace ts || isLifetime ts) ||
    (isWord "for" ts && !startsParameters (tail ts)) || startsBlockAfter "try" ts ||
    startsBlockAfter "const" ts

/-- Reads an expression that ends with the block that it starts with, unless a member of it is
taken, one level of nesting above the given readers. -/
def boundedStep (r : Readers) : Reader Expression := do
  let attributes ← AttributeReader.outerFragments r
  let first ← if ← next startsBounded then atom r true else operand r true
  if first.needsComma then extend r true .assign (first.withAttributes attributes) r.fuel
  else if ← next fun ts => startsPoint ts || startsWith "?" ts then
    let e ← trailers r first r.fuel
    extend r true .assign (e.withAttributes attributes) r.fuel
  else return first.withAttributes attributes

end RecordStore.ExpressionReader
