import RecordStore.Source.DataType

/-!
Reading items among statements and inside other items. What an item of no settled form consists of
is kept as it stands; all other items are written out from their parts.
-/
namespace RecordStore.ItemReader

open Reader Fragment TypeReader GenericsReader DataTypeReader

def past (w : String) (ts : List Token) : List Token := if isWord w ts then tail ts else ts

/-- Whether a function comes next; one from outside may be called safe. -/
def startsFunction (allowsSafe : Bool) (ts : List Token) : Bool :=
  let ts := past "async" (past "const" ts)
  let ts := if allowsSafe && isWord "safe" ts then tail ts else past "unsafe" ts
  let ts := if isWord "extern" ts && isString (tail ts) then tail (tail ts) else past "extern" ts
  isWord "fn" ts

def startsInvocation (ts : List Token) : Bool :=
  isIdent ts || isOneOf ["self", "super", "crate"] ts || startsWith "::" ts

def invocationStarts : List String := ["identifier", "`self`", "`super`", "`crate`", "`::`"]

/-- Reads a receiver. Unless its type is given, it is `Self` or a reference to it. -/
def receiver (r : Readers) : Reader (List Fragment) := do
  let reference ←
    if ← next (startsWith "&") then pure ((← mark "&") ++ (← lifetime?)) else pure []
  let mutable ← word? "mut"
  let start := reference ++ mutable ++ (← word "self")
  if ← next fun ts => reference.isEmpty && startsWith ":" ts then
    return start ++ (← mark ":") ++ (← r.typeFragment true)
  let mode := if reference.isEmpty then [] else fragmentTokens (reference ++ mutable)
  return start ++ [.receiver mode (.path false [.plain "Self"])]

/-- Reads a parameter that is no receiver, and says whether it stands for any number of them. -/
def typedParameter (r : Readers) : Reader (List Fragment × Bool) := do
  if ← next fun ts => isIdent ts && startsWith "<" (tail ts) then
    return (Fragment.word "_" ++ Fragment.mark ":" ++ (← r.typeFragment true), false)
  let start := (← r.pattern).fragments ++ (← mark ":")
  if ← next (startsWith "...") then return (start ++ (← mark "..."), true)
  return (start ++ (← r.typeFragment true), false)

def functionParameter (r : Readers) (isFirst hasReceiver : Bool) :
    Reader (List Fragment × Bool × Bool) := do
  if ← next (startsWith "...") then return (← mark "...", true, hasReceiver)
  match ← attempt (receiver r) with
  | some fragments =>
    if hasReceiver then refuse "unexpected second method receiver"
    if !isFirst then refuse "unexpected method receiver"
    return (fragments, false, true)
  | none =>
    let (fragments, isVariadic) ← typedParameter r
    return (fragments, isVariadic, hasReceiver)

/-- Reads the parameters of a function. Only the first one may be a receiver, and none follows one
that stands for any number of them. -/
def functionParameters (r : Readers) (isFirst hasReceiver : Bool) : Nat → Reader (List Fragment)
  | 0 => pure []
  | n + 1 => do
    if ← atEnd then return []
    let attributes ← AttributeReader.outerFragments r
    let (fragments, isVariadic, hasReceiver) ← functionParameter r isFirst hasReceiver
    let start := attributes ++ fragments
    if ← atEnd then return start
    let start := start ++ (← mark ",")
    if isVariadic then return start
    return start ++ (← functionParameters r false hasReceiver n)

def signature (r : Readers) (allowsSafe : Bool) : Reader (List Fragment × Bool) := do
  let words := (← word? "const") ++ (← word? "async") ++ (← word? "unsafe")
  let isSafe ← next fun ts => allowsSafe && isWord "safe" ts
  if isSafe then skip 1
  let start := words ++ (← convention?) ++ (← word "fn") ++ Fragment.word (← ident)
  let generics ← generics r
  let parameters ← grouped .paren (functionParameters r true false r.fuel)
  let output ← returnType r true
  let clause := (← clause? r).getD []
  return (start ++ generics ++ [.withClause (parameters ++ output) clause], isSafe)

def members (r : Readers) (item : Reader (List Fragment)) : Reader (List Fragment) :=
  grouped .brace do
    return (← AttributeReader.inners r) ++ (← whileNext (!·.isEmpty) item r.fuel).flatten

def boundsUntil (r : Readers) (isEnd : List Token → Bool) : Reader (List Fragment) := do
  let (bounds, trailing) ← separatedUntil isEnd "+" (Bound.fragments <$> bound r .parameter) r.fuel
  return joined (Fragment.mark "+") trailing bounds

def value? (r : Readers) : Reader (List Fragment) := do
  if ← next (startsWith "=") then return (← mark "=") ++ (← r.anyExpression).fragments
  return []

/-- Reads a constant, and says whether it has a value and whether it has no parameters. Others may
be expected in place of its name. -/
def constant (r : Readers) (others : List String) : Reader (List Fragment × Bool × Bool) := do
  let start ← word "const"
  if !(← next fun ts => isIdent ts || isWord "_" ts) then
    expected (["identifier", "`_`"] ++ others)
  let name ← anyIdent
  let isGeneric ← next (startsWith "<")
  let generics ← generics r
  let type := (← mark ":") ++ (← r.typeFragment true)
  let value ← value? r
  let clause ← clause? r
  let stop ← mark ";"
  return (start ++ Fragment.word name ++ generics ++ type ++ value ++ stop, !value.isEmpty,
    !isGeneric && clause.isNone)

/-- A name for a type: what precedes its bounds, and what follows them. -/
structure TypeAlias where
  start : List Fragment
  bounds : Option (List Fragment)
  definition : List Fragment
  clause : List Fragment
  stop : List Fragment

/-- Reads a name for a type. The clause of predicates stands before its definition or after it. -/
def typeAlias (r : Readers) (clauseBefore clauseAfter : Bool) : Reader TypeAlias := do
  let start := (← word "type") ++ Fragment.word (← ident)
  let generics ← generics r
  let bounds ←
    if ← next (startsWith ":") then
      skip 1
      pure (some (← boundsUntil r fun ts => isWord "where" ts || startsWithAny ["=", ";"] ts))
    else pure none
  let before ← if clauseBefore then clause? r else pure none
  let definition ←
    if ← next (startsWith "=") then pure ((← mark "=") ++ (← r.typeFragment true)) else pure []
  let after ← if clauseAfter && before.isNone then clause? r else pure none
  return ⟨start ++ generics, bounds, definition, (before <|> after).getD [], ← mark ";"⟩

/-- Reads an invocation. One that is not in braces ends with a semicolon. -/
def invocation (r : Readers) (mayName : Bool) : Reader (List Fragment) := do
  let (isGlobal, names) ← AttributeReader.modulePath r.fuel
  let start := AttributeReader.pathFragments isGlobal names ++ (← mark "!")
  let name ←
    if ← next fun ts => mayName && (isIdent ts || isWord "try" ts) then
      pure (Fragment.word (← anyIdent))
    else pure []
  let isBraced ← next (isGroup .brace)
  let body ← anyGroup
  return start ++ name ++ body ++ (← if isBraced then pure [] else mark ";")

def importStarts : List String :=
  ["identifier", "`self`", "`super`", "`crate`", "`try`", "`*`", "curly braces"]

/-- Reads what an import names, and says whether a path inside it starts at the root, which is
allowed only where nothing precedes it. -/
def importTree (allowsRoot : Bool) : Nat → Reader (List Fragment × Bool)
  | 0 => refuse "unexpected token"
  | n + 1 => do
    if ← next fun ts => isIdent ts || isOneOf ["self", "super", "crate", "try"] ts then
      let name := Fragment.word (← anyIdent)
      if ← next (startsWith "::") then
        let colons ← mark "::"
        let (rest, isRooted) ← importTree false n
        return (name ++ colons ++ rest, isRooted)
      if ← next (isWord "as") then
        let start := name ++ (← word "as")
        if ← next fun ts => isIdent ts || isWord "_" ts then
          return (start ++ Fragment.word (← anyIdent), false)
        fail "expected identifier or underscore"
      return (name, false)
    if ← next (startsWith "*") then return (← mark "*", false)
    if ← next (isGroup .brace) then
      let item : Reader (List Fragment × Bool) := do
        let isRoot ← next fun ts => allowsRoot && startsWith "::" ts
        if isRoot then skip 2
        let (tree, isRooted) ← importTree (allowsRoot && !isRoot) n
        return (tree, isRoot || isRooted)
      let (items, trailing) ← inGroup .brace (commaSeparated item n)
      return ([.group .brace (commas (items.map Prod.fst, trailing))], items.any Prod.snd)
    expected importStarts

def foreignMember (r : Readers) : Reader (List Fragment) := do
  let before ← get
  let attributes ← AttributeReader.outerFragments r
  let visibility ← visibility r
  let start := attributes ++ visibility
  if ← next (startsFunction true) then
    let (head, isSafe) ← signature r true
    if ← next (isGroup .brace) then
      let _ ← AttributeReader.body r
      since before
    else
      let stop ← mark ";"
      if isSafe then since before else return start ++ head ++ stop
  else if ← next fun ts =>
      isWord "static" (past "safe" ts) || isWord "static" (past "unsafe" ts) then
    let isPlain ← next (isWord "static")
    if !isPlain then skip 1
    let name := (← word "static") ++ (← word? "mut") ++ Fragment.word (← ident)
    let type := (← mark ":") ++ (← r.typeFragment true)
    let value ← value? r
    let stop ← mark ";"
    if isPlain && value.isEmpty then return start ++ name ++ type ++ stop else since before
  else if ← next (isWord "type") then
    let a ← typeAlias r true true
    if a.bounds.isNone && a.definition.isEmpty then return start ++ a.start ++ a.clause ++ a.stop
    since before
  else if ← next fun ts => visibility.isEmpty && startsInvocation ts then
    return start ++ (← invocation r false)
  else
    expected (["`fn`", "`static`", "`type`"] ++ if visibility.isEmpty then invocationStarts else [])

def foreignModule (r : Readers) : Reader (List Fragment) := do
  let start ← word? "unsafe"
  if !(← next (isWord "extern")) then refuse "expected `extern`"
  return start ++ (← convention?) ++ (← members r (foreignMember r))

/-- Reads an item of a trait. One with a visibility is kept as it stands. -/
def traitMember (r : Readers) : Reader (List Fragment) := do
  let before ← get
  let attributes ← AttributeReader.outerFragments r
  let visibility ← visibility r
  let isPlain := visibility.isEmpty && (← word? "default").isEmpty
  let keep (fs : List Fragment) : Reader (List Fragment) := do
    if isPlain then return attributes ++ fs else since before
  if ← next (startsFunction false) then
    let (head, _) ← signature r false
    if ← next (isGroup .brace) then keep (head ++ (← AttributeReader.body r))
    else if ← next (startsWith ";") then keep (head ++ (← mark ";"))
    else expected ["curly braces", "`;`"]
  else if ← next (isWord "const") then
    if ← next fun ts => isOneOf ["async", "unsafe", "extern"] (tail ts) then
      keep (← signature r false).1
    else
      let (fragments, _, hasNoParameters) ←
        constant r ["`async`", "`unsafe`", "`extern`", "`fn`"]
      if hasNoParameters then keep fragments else since before
  else if ← next (isWord "type") then
    let a ← typeAlias r false true
    let bounds := introduced (Fragment.mark ":") (a.bounds.getD [])
    keep (a.start ++ [.withClause (bounds ++ a.definition) a.clause] ++ a.stop)
  else if ← next fun ts => isPlain && startsInvocation ts then keep (← invocation r false)
  else expected (["`fn`", "`const`", "`type`"] ++ if isPlain then invocationStarts else [])

def traitItem (r : Readers) : Reader (List Fragment) := do
  let words := (← word? "unsafe") ++ (← word? "auto")
  let start := words ++ (← word "trait") ++ Fragment.word (← ident)
  let generics ← generics r
  if ← next fun ts => words.isEmpty && startsWith "=" ts then
    let sign ← mark "="
    let bounds ← boundsUntil r fun ts => isWord "where" ts || startsWith ";" ts
    let clause := (← clause? r).getD []
    return start ++ generics ++ sign ++ [.withClause bounds clause] ++ (← mark ";")
  let startsBody (ts : List Token) : Bool :=
    isGroup .brace ts || startsWith ":" ts || isWord "where" ts
  if ← next fun ts => words.isEmpty && !startsBody ts then
    expected ["curly braces", "`:`", "`where`", "`=`"]
  let bounds ←
    if ← next (startsWith ":") then
      let colon ← mark ":"
      let bounds ← boundsUntil r fun ts => isWord "where" ts || isGroup .brace ts
      pure (introduced colon bounds)
    else pure []
  let clause := (← clause? r).getD []
  return start ++ generics ++ [.withClause bounds clause] ++ (← members r (traitMember r))

def implMember (r : Readers) : Reader (List Fragment) := do
  let before ← get
  let attributes ← AttributeReader.outerFragments r
  let visibility ← visibility r
  let isDefault ← next fun ts => isWord "default" ts && !startsWith "!" (tail ts)
  let mode ← if isDefault then word "default" else pure []
  let start := attributes ++ visibility ++ mode
  let isPlain := visibility.isEmpty && !isDefault
  if ← next (startsFunction false) then
    let (head, _) ← signature r false
    if ← next (startsWith ";") then
      skip 1
      since before
    else return start ++ head ++ (← AttributeReader.body r)
  else if ← next (isWord "const") then
    let (fragments, hasValue, hasNoParameters) ← constant r []
    if hasValue && hasNoParameters then return start ++ fragments else since before
  else if ← next (isWord "type") then
    let a ← typeAlias r false true
    if a.bounds.isNone && !a.definition.isEmpty then
      return start ++ a.start ++ [.withClause a.definition a.clause] ++ a.stop
    since before
  else if ← next fun ts => isPlain && startsInvocation ts then
    return start ++ (← invocation r false)
  else
    expected ((if isDefault then [] else ["`default`"]) ++ ["`fn`", "`const`", "`type`"] ++
      if isPlain then invocationStarts else [])

/-- Reads an implementation after its attributes and its visibility, unless it has no settled
form. -/
def implementation? (r : Readers) : Reader (Option (List Fragment)) := do
  let start := (← word? "default") ++ (← word? "unsafe") ++ (← word "impl")
  let generics ← if ← next startsParameters then generics r else pure []
  let isConst ← next fun ts =>
    isWord "const" ts || (startsWith "?" ts && isWord "const" (tail ts))
  if isConst then
    let _ ← mark? "?"
    let _ ← word "const"
  let before ← get
  let isNegative ← next fun ts => startsWith "!" ts && !isGroup .brace (tail ts)
  let negation ← if isNegative then mark "!" else pure []
  let first ← r.type true
  let (isSettled, header) ←
    if ← next (isWord "for") then
      let joint ← word "for"
      let target ← r.typeFragment true
      match first with
      | .path isGlobal segments =>
        pure (true, negation ++ [.path isGlobal segments] ++ joint ++ target)
      | _ => pure (false, [])
    else if isNegative then pure (true, ← since before)
    else pure (true, [.type first])
  let clause := (← clause? r).getD []
  let body ← members r (implMember r)
  if isConst || !isSettled then return none
  return some (start ++ generics ++ [.withClause header clause] ++ body)

def moduleItem (r : Readers) : Reader (List Fragment) := do
  let start := (← word? "unsafe") ++ (← word "mod")
  let name ← if ← next (isWord "try") then anyIdent else ident
  let start := start ++ Fragment.word name
  if ← next (startsWith ";") then return start ++ (← mark ";")
  if ← next (isGroup .brace) then return start ++ (← members r r.item)
  expected ["`;`", "curly braces"]

def libraryImport : Reader (List Fragment) := do
  let start := (← word "extern") ++ (← word "crate")
  let name ← if ← next (isWord "self") then anyIdent else ident
  let start := start ++ Fragment.word name
  let rename ←
    if ← next (isWord "as") then
      let joint ← word "as"
      let name ← if ← next (isWord "_") then anyIdent else ident
      pure (joint ++ Fragment.word name)
    else pure []
  return start ++ rename ++ (← mark ";")

def externalItem (r : Readers) (visibility : List Fragment) : Reader (List Fragment) := do
  if ← next fun ts => isWord "crate" (tail ts) then return visibility ++ (← libraryImport)
  if ← next fun ts => isString (tail ts) && !isGroup .brace (tail (tail ts)) then
    skip 2
    expected ["curly braces"]
  if !(← next fun ts => isString (tail ts) || isGroup .brace (tail ts)) then
    skip 1
    expected ["`crate`", "curly braces", "string literal"]
  if !visibility.isEmpty then refuse "expected `extern`"
  foreignModule r

/-- Reads a static item after its attributes and its visibility, unless it has no settled form. -/
def static? (r : Readers) : Reader (Option (List Fragment)) := do
  let start := (← word "static") ++ (← word? "mut") ++ Fragment.word (← ident)
  if ← next (startsWith "=") then
    let _ ← value? r
    let _ ← mark ";"
    return none
  let type := (← mark ":") ++ (← r.typeFragment true)
  if ← next (startsWith ";") then
    skip 1
    return none
  let value := (← mark "=") ++ (← r.anyExpression).fragments
  return some (start ++ type ++ value ++ (← mark ";"))

/-- Reads an import after its attributes and its visibility, unless it has no settled form. -/
def import? (r : Readers) : Reader (Option (List Fragment)) := do
  let start := (← word "use") ++ (← mark? "::")
  let (tree, isRooted) ← importTree (start.length == 1) r.fuel
  let stop ← mark ";"
  return if isRooted then none else some (start ++ tree ++ stop)

def definition : Reader Unit := do
  skip 1
  let _ ← ident
  let hasParameters ← next (isGroup .paren)
  if hasParameters then skip 1
  if ← next (isGroup .brace) then skip 1
  else expected ((if hasParameters then [] else ["parentheses"]) ++ ["curly braces"])

def starts : List String :=
  ["`fn`", "`extern`", "`use`", "`static`", "`const`", "`unsafe`", "`mod`", "`type`", "`struct`",
    "`enum`", "`union`", "`trait`", "`auto`", "`impl`", "`default`", "`macro`"]

/-- Whether a trait comes next, and not just another name that is spelled like its words. -/
def startsTrait (ts : List Token) : Bool :=
  isWord "trait" ts || (isWord "auto" ts && isWord "trait" (tail ts))

def startsDataType (ts : List Token) : Bool :=
  isOneOf ["struct", "enum"] ts || (isWord "union" ts && isIdent (tail ts))

def settled? (r : Readers) (visibility : List Fragment) : Reader (Option (List Fragment)) := do
  let visible (fs : List Fragment) : Option (List Fragment) := some (visibility ++ fs)
  if ← next (startsFunction false) then
    let (head, _) ← signature r false
    if ← next (startsWith ";") then
      skip 1
      return none
    return visible (head ++ (← AttributeReader.body r))
  else if ← next (isWord "extern") then return some (← externalItem r visibility)
  else if ← next (isWord "use") then return (← import? r).bind visible
  else if ← next (isWord "static") then return (← static? r).bind visible
  else if ← next (isWord "const") then
    let (fragments, hasValue, hasNoParameters) ← constant r []
    return if hasValue && hasNoParameters then visible fragments else none
  else if ← next fun ts => startsTrait (past "unsafe" ts) then return visible (← traitItem r)
  else if ← next fun ts => isWord "mod" (past "unsafe" ts) then return visible (← moduleItem r)
  else if ← next fun ts => isWord "impl" (past "unsafe" ts) ||
      (isWord "default" ts && !startsWith "!" (tail ts)) then
    let implementation ← implementation? r
    return if visibility.isEmpty then implementation else none
  else if ← next (isWord "unsafe") then
    if ← next fun ts => isWord "extern" (tail ts) then
      if !visibility.isEmpty then refuse "expected `extern`"
      return some (← foreignModule r)
    skip 1
    expected ["`trait`", "`auto`", "`impl`", "`extern`", "`mod`"]
  else if ← next (isWord "type") then
    let a ← typeAlias r true false
    if a.bounds.isNone && !a.definition.isEmpty then
      return visible (a.start ++ a.clause ++ a.definition ++ a.stop)
    return none
  else if ← next startsDataType then return visible (← dataType r).fragments
  else if ← next (isWord "macro") then
    definition
    return none
  else if ← next fun ts => visibility.isEmpty && startsInvocation ts then
    return some (← invocation r true)
  else expected (starts ++ if visibility.isEmpty then invocationStarts else [])

def step (r : Readers) : Reader (List Fragment) := do
  let before ← get
  let attributes ← AttributeReader.outerFragments r
  let visibility ← visibility r
  match ← settled? r visibility with
  | some fragments => return attributes ++ fragments
  | none => since before

end RecordStore.ItemReader
