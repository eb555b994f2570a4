import RecordStore.Source.Member

/-!
Reading patterns: names, paths with what they take apart, ranges, and patterns in brackets. The two
points that stand for the rest are a range without ends.
-/
namespace RecordStore.PatternReader

open Reader Fragment TypeReader

def startsBar (ts : List Token) : Bool := startsWith "|" ts && !startsWithAny ["||", "|="] ts

def alternatives (r : Readers) : Reader Pattern := do
  let bar ← mark? "|"
  let first ← r.pattern
  let more ← whileNext startsBar (do return (← mark "|") ++ (← r.pattern).fragments) r.fuel
  if bar.isEmpty && more.isEmpty then return first
  return ⟨.other, bar ++ first.fragments ++ more.flatten⟩

def endsPattern (ts : List Token) : Bool :=
  ts.isEmpty || startsWithAny ["|", "=", ",", ";"] ts || startsColon ts || isWord "if" ts

def startsPath (ts : List Token) : Bool :=
  startsWithAny ["::", "<"] ts || isOneOf ["Self", "super", "crate"] ts

def rangeEnd? (r : Readers) : Reader (List Fragment) := do
  if ← next endsPattern then return []
  if ← next isLiteral then return ofTokens (← literal)
  if ← next fun ts => isIdent ts || isWord "self" ts || startsPath ts then return (← anyPath r).1
  if ← next (isWord "const") then return (← word "const") ++ (← AttributeReader.body r)
  expected ["literal", "identifier", "`::`", "`<`", "`self`", "`Self`", "`super`", "`crate`",
    "`const`"]

/-- Reads the rest of a range after its start. Three points count as a range with its end. -/
def rangeFrom (r : Readers) (start : List Fragment) : Reader Pattern := do
  let isClosed ← next (startsWithAny ["..=", "..."])
  skip (if isClosed then 3 else 2)
  let limits := Fragment.mark (if isClosed then "..=" else "..")
  let stop ← rangeEnd? r
  if stop.isEmpty then
    if isClosed then fail "expected range upper bound"
    return ⟨if start.isEmpty then .rest else .openRange, start ++ limits⟩
  return ⟨if start.isEmpty then .openRange else .other, start ++ limits ++ stop⟩

/-- Reads a field of a struct pattern after its attributes. A boxed one is kept as it stands. -/
def field (r : Readers) : Reader (List Fragment) := do
  let before ← get
  let isBoxed := !(← word? "box").isEmpty
  let mode := (← word? "ref") ++ (← word? "mut")
  if isBoxed || !mode.isEmpty then
    let name ← ident
    if isBoxed then since before else return mode ++ Fragment.word name
  else
    let (isNamed, name) ← Member.read
    if ← next fun ts => !isNamed || startsWith ":" ts then
      return name ++ (← mark ":") ++ (← alternatives r).fragments
    return name

/-- Reads the fields of a struct pattern, up to the two points that stand for the rest. -/
def fields (r : Readers) : Nat → Reader (List Fragment)
  | 0 => pure []
  | n + 1 => do
    if ← atEnd then return []
    let attributes ← AttributeReader.outerFragments r
    if ← next (startsWith "..") then return attributes ++ (← mark "..")
    let start := attributes ++ (← field r)
    if ← atEnd then return start
    return start ++ (← mark ",") ++ (← fields r n)

def bracketed (r : Readers) (d : Delimiter) : Reader (List Fragment) :=
  grouped d do
    let item : Reader (List Fragment) := do
      let p ← alternatives r
      if d = .bracket && p.kind = .openRange then
        refuse "range pattern is not allowed unparenthesized inside slice pattern"
      return p.fragments
    return commas (← commaSeparated item r.fuel)

def pathPattern (r : Readers) : Reader Pattern := do
  let (name, isPlain) ← anyPath r
  if ← next fun ts => isPlain && startsBang ts then
    return ⟨.other, name ++ (← mark "!") ++ (← anyGroup)⟩
  if ← next (isGroup .brace) then return ⟨.other, name ++ (← grouped .brace (fields r r.fuel))⟩
  if ← next (isGroup .paren) then return ⟨.other, name ++ (← bracketed r .paren)⟩
  if ← next (startsWith "..") then rangeFrom r name else return ⟨.other, name⟩

def identPattern (r : Readers) : Reader Pattern := do
  let mode := (← word? "ref") ++ (← word? "mut")
  let name ← if ← next (isWord "self") then anyIdent else ident
  if ← next (startsWith "@") then
    return ⟨.other, mode ++ Fragment.word name ++ (← mark "@") ++ (← r.pattern).fragments⟩
  return ⟨.other, mode ++ Fragment.word name⟩

def startsPathPattern (ts : List Token) : Bool :=
  let after := tail ts
  (isIdent ts && (startsWithAny ["::", "!", ".."] after || isGroup .brace after ||
    isGroup .paren after)) || (isWord "self" ts && startsWith "::" after) || startsPath ts

def starts : List String :=
  ["identifier", "`::`", "`<`", "`_`", "literal", "`const`", "`ref`", "`mut`", "`&`",
    "parentheses", "square brackets"]

def step (r : Readers) : Reader Pattern := do
  let before ← get
  if ← next startsPathPattern then pathPattern r
  else if ← next (isWord "_") then return ⟨.other, ← word "_"⟩
  else if ← next (isWord "box") then
    skip 1
    let _ ← r.pattern
    return ⟨.verbatim, ← since before⟩
  else if ← next fun ts => startsWith "-" ts || isLiteral ts || isWord "const" ts then
    let start ← rangeEnd? r
    if ← next (startsWith "..") then rangeFrom r start else return ⟨.other, start⟩
  else if ← next fun ts => isIdent ts || isOneOf ["ref", "mut", "self"] ts then identPattern r
  else if ← next (startsWith "&") then
    return ⟨.other, (← mark "&") ++ (← word? "mut") ++ (← r.pattern).fragments⟩
  else if ← next (isGroup .paren) then return ⟨.other, ← bracketed r .paren⟩
  else if ← next (isGroup .bracket) then return ⟨.other, ← bracketed r .bracket⟩
  else if ← next (startsWith "...") then expected (starts ++ ["`const`"])
  else if ← next (startsWith "..") then rangeFrom r []
  else expected (starts ++ ["`..`", "`const`"])

end RecordStore.PatternReader
