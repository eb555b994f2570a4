import RecordStore.Source.TypeReader

/-!
Members of a value, by name or by place. A place is a whole number, written in decimal whatever its
base was. Two places with a point between them look like one number with a fraction.
-/
namespace RecordStore.Member

open Reader Fragment

-- Powers are those of the core library, whatever other instances are in scope.
attribute [local instance (high)] instPowNat

def lastPlace : Nat := 2 ^ (32 : Nat) - 1

def wholeNumber? (ts : List Token) : Option String :=
  match (literalTokens ts).getLast? with
  | some (.literal s) => if Literal.kind s = .int then some s else none
  | _ => none

def fraction? (ts : List Token) : Option String :=
  let taken := literalTokens ts
  match taken.getLast? with
  | some (.literal s) =>
    if Literal.kind s = .float then some (if taken.length = 1 then s else "-" ++ s) else none
  | _ => none

def place : Reader (List Fragment) := do
  let ts := (← get).tokens
  match (wholeNumber? ts).bind fun s => Literal.integer? s.toList with
  | none => fail "expected integer literal"
  | some (value, suffix) =>
    let isNegative := startsWith "-" ts
    skip (literalTokens ts).length
    if !suffix.isEmpty then refuse "expected unsuffixed integer"
    if isNegative then refuse "invalid digit found in string"
    if lastPlace < value then refuse "number too large to fit in target type"
    return ofTokens [.literal value.repr]

def read : Reader (Bool × List Fragment) := do
  if ← next isIdent then return (true, Fragment.word (← ident))
  if ← next fun ts => (wholeNumber? ts).isSome then return (false, ← place)
  fail "expected identifier or integer"

def placeOf (text : String) : Reader (List Fragment) :=
  match Lexer.tokens? text with
  | none => refuse "cannot parse string into token stream"
  | some ts =>
    match whole place ts with
    | .ok place => pure place
    | .error message => refuse message

/-- Reads the places in a number with a fraction, if one comes next, and whether a point ends it. -/
def places? : Reader (Option (List Fragment × Bool)) := do
  let ts := (← get).tokens
  match fraction? ts with
  | none => return none
  | some text =>
    skip (literalTokens ts).length
    let parts := text.splitOn "."
    let places ← (parts.filter (!·.isEmpty)).mapM placeOf
    return some (joined (mark ".") false places, parts.getLast? == some "")

end RecordStore.Member
