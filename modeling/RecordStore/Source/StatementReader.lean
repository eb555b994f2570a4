import RecordStore.Source.ExpressionReader

/-!
Reading statements. A statement is a binding, an item, an invocation in braces or an expression; an
expression that ends in a block needs no semicolon after it, and the last one in a part never does.
-/
namespace RecordStore.StatementReader

open Reader Fragment TypeReader ExpressionReader

/-- Reads a binding. What happens where the pattern does not match cannot follow a brace. -/
def binding (r : Readers) : Reader (List Fragment) := do
  let start := (← word "let") ++ (← r.pattern).fragments
  let type ←
    if ← next (startsWith ":") then pure ((← mark ":") ++ (← r.typeFragment true)) else pure []
  let value ←
    if ← next (startsWith "=") then
      let sign ← mark "="
      let value := (← r.anyExpression).fragments
      let otherwise ←
        if ← next fun ts => isWord "else" ts && !Expression.endsInBraces value then
          pure ((← word "else") ++ (← r.block))
        else pure []
      pure (sign ++ value ++ otherwise)
    else pure []
  return start ++ type ++ value ++ (← mark ";")

def invokesItem (ts : List Token) : Bool :=
  startsWith "!" ts && (isIdent (tail ts) || isWord "try" (tail ts))

/-- Whether an invocation in braces, of whose value no more is made, follows its path. -/
def invokesInBraces (ts : List Token) : Bool :=
  let after := tail (tail ts)
  startsWith "!" ts && isGroup .brace (tail ts) && !startsPoint after && !startsWith "?" after

def isFunctionWord (ts : List Token) : Bool := isOneOf ["unsafe", "extern", "fn"] ts

def startsItem (ts : List Token) : Bool :=
  let second := tail ts
  let third := tail second
  isOneOf ["pub", "extern", "use", "fn", "mod", "type", "struct", "enum", "trait", "impl",
      "macro"] ts ||
    (isWord "crate" ts && !startsWith "::" second) ||
    (isWord "static" ts && (isWord "mut" second || isIdent second)) ||
    (isWord "const" ts && !(isGroup .brace second || isWord "static" second ||
      (isWord "async" second && !isFunctionWord third) || isWord "move" second ||
      startsWith "|" second)) ||
    (isWord "unsafe" ts && !isGroup .brace second) ||
    (isWord "async" ts && isFunctionWord second) ||
    (isWord "union" ts && isIdent second) || (isWord "auto" ts && isWord "trait" second) ||
    (isWord "default" ts && isOneOf ["unsafe", "impl"] second)

def statement (r : Readers) : Reader (List Fragment × Bool) := do
  let before ← get
  let attributes ← AttributeReader.outerFragments r
  let afterPath := (← attempt (beyond (AttributeReader.modulePath r.fuel))).getD []
  if invokesInBraces afterPath then
    let (isGlobal, names) ← AttributeReader.modulePath r.fuel
    let name := AttributeReader.pathFragments isGlobal names
    let body := (← mark "!") ++ (← anyGroup)
    return (attributes ++ name ++ body ++ (← mark? ";"), true)
  if ← next (isWord "let") then return (attributes ++ (← binding r), true)
  if ← next fun ts => startsItem ts || invokesItem afterPath then
    set before
    return (← r.item, true)
  let e := (← r.bounded).withAttributes attributes
  let semicolon ← mark? ";"
  return (e.fragments ++ semicolon, !semicolon.isEmpty || !e.needsSemicolon)

def statements (r : Readers) : Nat → Reader (List Fragment)
  | 0 => pure []
  | n + 1 => do
    let empty ← whileNext (startsWith ";") (mark ";") r.fuel
    if ← atEnd then return empty.flatten
    let (statement, isComplete) ← statement r
    let start := empty.flatten ++ statement
    if ← atEnd then return start
    if !isComplete then refuse "unexpected token, expected `;`"
    return start ++ (← statements r n)

def step (r : Readers) : Reader (List Fragment) := statements r r.fuel

end RecordStore.StatementReader
