import RecordStore.Source.Literal
import RecordStore.Source.TypeExpr

/-!
Reading token sequences from the front. A reader takes what it needs and leaves the rest; where it
fails it says what it expected, and for most things that the input had ended if it had. A bracketed
part that was not read to its end is no failure yet: it is noted, and refused once all else has
been read.
-/
namespace RecordStore

/-- What is left to read, and the brackets of the first part that was not read to its end. -/
structure Input where
  tokens : List Token
  unfinished : Option Delimiter := none

abbrev Reader := StateT Input (Except String)

namespace Reader

def fail {α : Type} (message : String) : Reader α := fun input =>
  .error (if input.tokens.isEmpty then "unexpected end of input, " ++ message else message)

def refuse {α : Type} (message : String) : Reader α := fun _ => .error message

def expected {α : Type} : List String → Reader α
  | [] => fun input =>
    .error (if input.tokens.isEmpty then "unexpected end of input" else "unexpected token")
  | [a] => fail ("expected " ++ a)
  | [a, b] => fail ("expected " ++ a ++ " or " ++ b)
  | names => fail ("expected one of: " ++ ", ".intercalate names)

/-- The tokens after one tree; a lifetime counts as one. -/
def tail : List Token → List Token
  | .punct '\x27' true :: .ident _ :: rest => rest
  | ts => ts.drop 1

/-- Whether the characters of a mark come next; all but the last have to be joined. -/
def startsWithChars (chars : List Char) (ts : List Token) : Bool :=
  match chars, ts with
  | [], _ => true
  | [c], .punct d _ :: _ => c == d
  | c :: cs, .punct d joint :: rest => c == d && joint && startsWithChars cs rest
  | _ :: _, _ => false

def startsWith (mark : String) (ts : List Token) : Bool := startsWithChars mark.toList ts

def startsWithAny (marks : List String) (ts : List Token) : Bool := marks.any (startsWith · ts)

def startsColon (ts : List Token) : Bool := startsWith ":" ts && !startsWith "::" ts

def startsPoint (ts : List Token) : Bool := startsWith "." ts && !startsWith ".." ts

def startsBang (ts : List Token) : Bool := startsWith "!" ts && !startsWith "!=" ts

def startsEquals (ts : List Token) : Bool := startsWith "=" ts && !startsWith "=>" ts

def next (test : List Token → Bool) : Reader Bool := fun input => .ok (test input.tokens, input)

def atEnd : Reader Bool := next List.isEmpty

def skip (count : Nat) : Reader Unit :=
  modify fun input => { input with tokens := input.tokens.drop count }

def mark (s : String) : Reader (List Fragment) := do
  if ← next (startsWith s) then
    skip s.length
    return Fragment.mark s
  refuse ("expected `" ++ s ++ "`")

def mark? (s : String) : Reader (List Fragment) := do
  if ← next (startsWith s) then mark s else return []

def reserved : List String :=
  ["_", "abstract", "as", "async", "await", "become", "box", "break", "const", "continue",
    "crate", "do", "dyn", "else", "enum", "extern", "false", "final", "fn", "for", "if", "impl",
    "in", "let", "loop", "macro", "match", "mod", "move", "mut", "override", "priv", "pub",
    "ref", "return", "Self", "self", "static", "struct", "super", "trait", "true", "try",
    "type", "typeof", "unsafe", "unsized", "use", "virtual", "where", "while", "yield"]

def isIdent : List Token → Bool
  | .ident s :: _ => !reserved.contains s
  | _ => false

def isAnyIdent : List Token → Bool
  | .ident _ :: _ => true
  | _ => false

def isWord (word : String) : List Token → Bool
  | .ident s :: _ => s == word
  | _ => false

def isOneOf (words : List String) (ts : List Token) : Bool := words.any (isWord · ts)

def anyIdent : Reader String := fun input =>
  match input.tokens with
  | .ident s :: rest => .ok (s, { input with tokens := rest })
  | _ => fail "expected ident" input

def ident : Reader String := fun input =>
  match input.tokens with
  | .ident s :: rest =>
    if reserved.contains s then .error ("expected identifier, found keyword `" ++ s ++ "`")
    else .ok (s, { input with tokens := rest })
  | _ => fail "expected identifier" input

def word (w : String) : Reader (List Fragment) := do
  if ← next (isWord w) then
    skip 1
    return Fragment.word w
  fail ("expected `" ++ w ++ "`")

def word? (w : String) : Reader (List Fragment) := do
  if ← next (isWord w) then word w else return []

def isLifetime : List Token → Bool
  | .punct '\x27' true :: .ident _ :: _ => true
  | _ => false

def lifetime : Reader String := fun input =>
  match input.tokens with
  | .punct '\x27' true :: .ident s :: rest => .ok (s, { input with tokens := rest })
  | _ => fail "expected lifetime" input

def lifetime? : Reader (List Fragment) := do
  if ← next isLifetime then return Fragment.ofTokens (Token.lifetime (← lifetime)) else return []

/-- The tokens of a literal at the front: a literal token, a truth value, or a number after a
minus sign. -/
def literalTokens : List Token → List Token
  | .literal s :: _ => [.literal s]
  | .ident s :: _ => if s == "true" || s == "false" then [.ident s] else []
  | .punct '-' _ :: .literal s :: _ =>
    if Literal.isNumber s then [.punct '-' false, .literal s] else []
  | _ => []

def isLiteral (ts : List Token) : Bool := !(literalTokens ts).isEmpty

def literal : Reader (List Token) := do
  match literalTokens (← get).tokens with
  | [] => fail "expected literal"
  | taken =>
    skip taken.length
    return taken

def isString : List Token → Bool
  | .literal s :: _ => Literal.isString s
  | _ => false

def isGroup (d : Delimiter) : List Token → Bool
  | .group e _ :: _ => d == e
  | _ => false

def groupName : Delimiter → String
  | .paren => "parentheses"
  | .brace => "curly braces"
  | .bracket => "square brackets"

def group (d : Delimiter) : Reader (List Token) := fun input =>
  match input.tokens with
  | .group e content :: rest =>
    if d = e then .ok (content, { input with tokens := rest })
    else fail ("expected " ++ groupName d) input
  | _ => fail ("expected " ++ groupName d) input

/-- Takes a bracketed part and reads its content, noting if it is not read to its end. -/
def inGroup {α : Type} (d : Delimiter) (reader : Reader α) : Reader α := do
  let content ← group d
  let outer ← get
  set { outer with tokens := content }
  let a ← reader
  let inner ← get
  let left := if inner.tokens.isEmpty then none else some d
  set ({ tokens := outer.tokens, unfinished := inner.unfinished <|> left } : Input)
  return a

def grouped (d : Delimiter) (reader : Reader (List Fragment)) : Reader (List Fragment) := do
  return [.group d (← inGroup d reader)]

def anyGroup : Reader (List Fragment) := fun input =>
  match input.tokens with
  | .group d content :: rest => .ok ([.token (.group d content)], { input with tokens := rest })
  | _ => fail "expected delimiter" input

def since (before : Input) : Reader (List Fragment) := do
  let left := (← get).tokens.length
  return Fragment.ofTokens (before.tokens.take (before.tokens.length - left))

def attempt {α : Type} (reader : Reader α) : Reader (Option α) := fun input =>
  match reader input with
  | .ok (a, input) => .ok (some a, input)
  | .error _ => .ok (none, input)

def beyond {α : Type} (reader : Reader α) : Reader (List Token) := fun input =>
  match reader input with
  | .ok (_, after) => .ok (after.tokens, input)
  | .error e => .error e

def whileNext {α : Type} (test : List Token → Bool) (item : Reader α) : Nat → Reader (List α)
  | 0 => pure []
  | n + 1 => do
    if ← next test then
      let x ← item
      return x :: (← whileNext test item n)
    return []

/-- Items with a separator between them up to an end, and whether a separator ends them. -/
def separatedUntil {α : Type} (isEnd : List Token → Bool) (separator : String) (item : Reader α) :
    Nat → Reader (List α × Bool)
  | 0 => refuse "unexpected token"
  | n + 1 => do
    if ← next isEnd then return ([], false)
    let x ← item
    if ← next isEnd then return ([x], false)
    let _ ← mark separator
    let (xs, trailing) ← separatedUntil isEnd separator item n
    return (x :: xs, xs.isEmpty || trailing)

/-- Items with commas between them up to the end of the input, and whether a comma ends them. -/
def commaSeparated {α : Type} (item : Reader α) (n : Nat) : Reader (List α × Bool) :=
  separatedUntil List.isEmpty "," item n

def closing : Delimiter → String
  | .paren => ")"
  | .brace => "\x7d"
  | .bracket => "]"

def whole {α : Type} (reader : Reader α) (ts : List Token) : Except String α :=
  match reader ⟨ts, none⟩ with
  | .error e => .error e
  | .ok (a, input) =>
    match input.unfinished with
    | some d => .error ("unexpected token, expected `" ++ closing d ++ "`")
    | none => if input.tokens.isEmpty then .ok a else .error "unexpected token"

end Reader

end RecordStore
