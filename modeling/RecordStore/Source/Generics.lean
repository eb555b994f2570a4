import RecordStore.Source.TypeReader

/-!
Generic parameters of items and the predicates on them. Lifetimes are written before all other
parameters, and a list of parameters or of predicates that is empty is not written at all.
-/
namespace RecordStore.GenericsReader

open Reader Fragment TypeReader

def parameter (r : Readers) : Reader (Bool × List Fragment) := do
  let attributes ← AttributeReader.outerFragments r
  if ← next isLifetime then return (true, attributes ++ (← lifetimeParameter r))
  if ← next isIdent then return (false, attributes ++ (← typeParameter r))
  if ← next (isWord "const") then return (false, attributes ++ (← constParameter r))
  if ← next (isWord "_") then return (false, attributes ++ (← word "_"))
  expected ["lifetime", "identifier", "`const`"]

def generics (r : Readers) : Reader (List Fragment) := do
  if ← next (startsWith "<") then
    let opening ← mark "<"
    let (parameters, trailing) ← separatedUntil (startsWith ">") "," (parameter r) r.fuel
    let closing ← mark ">"
    if parameters.isEmpty then return []
    return opening ++ lifetimesFirst (.token .comma) trailing parameters ++ closing
  return []

def endsPredicate (ts : List Token) : Bool :=
  ts.isEmpty || isGroup .brace ts || startsWithAny [",", ";", "="] ts || startsColon ts

def predicate (r : Readers) : Reader (List Fragment) := do
  if ← next fun ts => isLifetime ts && startsWith ":" (tail ts) then
    let name := ofTokens (Token.lifetime (← lifetime))
    let colon ← mark ":"
    let isEnd (ts : List Token) : Bool := endsPredicate ts || startsWith ":" ts
    let bounds ← summedUntil isEnd (do return ofTokens (Token.lifetime (← lifetime))) r.fuel
    return name ++ colon ++ bounds
  let binder ← binder? r
  let type ← r.typeFragment true
  let colon ← mark ":"
  return binder ++ type ++ colon ++ (← parameterBounds r endsPredicate)

def predicates (r : Readers) : Nat → Reader (List Fragment)
  | 0 => pure []
  | n + 1 => do
    if ← next endsPredicate then return []
    let first ← predicate r
    if ← next (startsWith ",") then return first ++ (← mark ",") ++ (← predicates r n)
    return first

def clause? (r : Readers) : Reader (Option (List Fragment)) := do
  if ← next (isWord "where") then
    let start ← word "where"
    if ← next startsParameters then
      fail "generic parameters on `where` clauses are reserved for future use"
    let predicates ← predicates r r.fuel
    return some (if predicates.isEmpty then [] else start ++ predicates)
  return none

end RecordStore.GenericsReader
