import RecordStore.Source.Token
import RecordStore.Text.Escape
import RecordStore.Text.Identifier

/-!
Source text as token trees. Blanks and ordinary comments vanish, a documentation comment becomes
the attribute it stands for, and brackets have to match. Each step of the lexer takes at least one
character, so the length of the text bounds its work.
-/
namespace RecordStore.Lexer

/-- A token without parts, or one bracket. -/
inductive Lexeme where
  | leaf (token : Token)
  | opening (d : Delimiter)
  | closing (d : Delimiter)
  | comment (inner : Bool) (text : String)

abbrev Step := Option (List Lexeme × List Char)

def isBlank (c : Char) : Bool :=
  let n := c.toNat
  n == 0x20 || (9 ≤ n && n ≤ 13) || n == 0x85 || n == 0xa0 || n == 0x1680 ||
    (0x2000 ≤ n && n ≤ 0x200a) || n == 0x200e || n == 0x200f || n == 0x2028 || n == 0x2029 ||
    n == 0x202f || n == 0x205f || n == 0x3000

def punctChars : List Char := "~!@#$%^&*-=+|;:,<.>/?\x27".toList

/-- Whether a punctuation character comes next; the slash of a comment is none. -/
def startsPunct : List Char → Bool
  | '/' :: '/' :: _ => false
  | '/' :: '*' :: _ => false
  | c :: _ => punctChars.contains c
  | [] => false

def identStart (c : Char) : Bool := c == '_' || Identifier.isStart c

def plainIdent? : List Char → Option (List Char × List Char)
  | [] => none
  | c :: rest =>
    if identStart c then
      some (c :: rest.takeWhile Identifier.isContinue, rest.dropWhile Identifier.isContinue)
    else none

def neverRaw : List String := ["_", "super", "self", "Self", "crate"]

def anyIdent? (cs : List Char) : Option (String × List Char) :=
  match cs with
  | 'r' :: '#' :: rest =>
    match plainIdent? rest with
    | some (name, rest) =>
      let name := String.ofList name
      if neverRaw.contains name then none else some ("r#" ++ name, rest)
    | none => none
  | cs => (plainIdent? cs).map fun (name, rest) => (String.ofList name, rest)

def startsLiteral (cs : List Char) : Bool :=
  ["r\"", "r#\"", "r##", "b\"", "b\x27", "br\"", "br#", "c\"", "cr\"", "cr#"].any
    fun p => p.toList.isPrefixOf cs

def suffix (cs : List Char) : List Char × List Char := (plainIdent? cs).getD ([], cs)

/-- What a quoted literal is made of, which decides the characters and escapes it takes. -/
inductive Alphabet where
  | text
  | bytes
  /-- Text that ends in a NUL and so holds none. -/
  | nulEnded
  deriving DecidableEq, Repr

def isHex (c : Char) : Bool := c.isDigit || ('a' ≤ c && c ≤ 'f') || ('A' ≤ c && c ≤ 'F')

def hexValue (ds : List Char) : Nat :=
  (ds.filter isHex).foldl (fun n c => 16 * n +
    (if c.isDigit then c.toNat - '0'.toNat else c.toLower.toNat - 'a'.toNat + 10)) 0

def isCode (alphabet : Alphabet) (a b : Char) : Bool :=
  isHex a && isHex b &&
    match alphabet with
    | .text => a.isDigit && a < '8'
    | .bytes => true
    | .nulEnded => hexValue [a, b] ≠ 0

def escape? (alphabet : Alphabet) : List Char → Option (List Char × List Char)
  | 'x' :: a :: b :: rest => if isCode alphabet a b then some (['x', a, b], rest) else none
  | 'u' :: '\x7b' :: rest =>
    let ds := rest.takeWhile fun c => isHex c || c == '_'
    match rest.drop ds.length with
    | '\x7d' :: after =>
      let size := (ds.filter isHex).length
      let code := hexValue ds
      if alphabet = .bytes || size = 0 || 6 < size || ds.head? == some '_' || !code.isValidChar ||
          (alphabet = .nulEnded && code = 0) then none
      else some ('u' :: '\x7b' :: ds ++ ['\x7d'], after)
    | _ => none
  | '0' :: rest => if alphabet = .nulEnded then none else some (['0'], rest)
  | c :: rest => if "nrt\\\x27\"".toList.contains c then some ([c], rest) else none
  | [] => none

def isPlain (alphabet : Alphabet) (c : Char) : Bool :=
  match alphabet with
  | .text => true
  | .bytes => c.toNat < 0x80
  | .nulEnded => c ≠ '\x00'

/-- The rest of a quoted literal up to and with its closing quote. A carriage return stands before
a line feed only. -/
def quotedBody (alphabet : Alphabet) : Nat → List Char → Option (List Char × List Char)
  | 0, _ => none
  | _ + 1, [] => none
  | _ + 1, '\x22' :: rest => some (['\x22'], rest)
  | n + 1, '\r' :: '\n' :: rest =>
    (quotedBody alphabet n rest).map fun (s, r) => ('\r' :: '\n' :: s, r)
  | _ + 1, '\r' :: _ => none
  | n + 1, '\\' :: '\n' :: rest =>
    (quotedBody alphabet n rest).map fun (s, r) => ('\\' :: '\n' :: s, r)
  | n + 1, '\\' :: '\r' :: '\n' :: rest =>
    (quotedBody alphabet n rest).map fun (s, r) => ('\\' :: '\r' :: '\n' :: s, r)
  | n + 1, '\\' :: rest =>
    match escape? alphabet rest with
    | none => none
    | some (e, rest) => (quotedBody alphabet n rest).map fun (s, r) => ('\\' :: e ++ s, r)
  | n + 1, c :: rest =>
    if isPlain alphabet c then (quotedBody alphabet n rest).map fun (s, r) => (c :: s, r) else none

def rawBody (alphabet : Alphabet) (marks : Nat) : List Char → Option (List Char × List Char)
  | [] => none
  | '\x22' :: rest =>
    if (rest.takeWhile (· == '#')).length < marks then
      (rawBody alphabet marks rest).map fun (s, r) => ('\x22' :: s, r)
    else some ('\x22' :: rest.take marks, rest.drop marks)
  | c :: rest =>
    if isPlain alphabet c && !(c == '\r' && rest.head? != some '\n') then
      (rawBody alphabet marks rest).map fun (s, r) => (c :: s, r)
    else none

def maxMarks : Nat := 255

def raw? (alphabet : Alphabet) (letters : List Char) (cs : List Char) :
    Option (List Char × List Char) :=
  let marks := cs.takeWhile (· == '#')
  match cs.drop marks.length with
  | '\x22' :: rest =>
    if maxMarks < marks.length then none
    else
      (rawBody alphabet marks.length rest).map fun (s, r) =>
        (letters ++ marks ++ '\x22' :: s, r)
  | _ => none

def quoted? (alphabet : Alphabet) (letters : List Char) (cs : List Char) :
    Option (List Char × List Char) :=
  (quotedBody alphabet (cs.length + 1) cs).map fun (s, r) => (letters ++ '\x22' :: s, r)

def apostrophe? (alphabet : Alphabet) (letters : List Char) (cs : List Char) :
    Option (List Char × List Char) :=
  let inner := match cs with
    | '\\' :: rest => (escape? alphabet rest).map fun (e, r) => ('\\' :: e, r)
    | c :: rest => if isPlain alphabet c then some ([c], rest) else none
    | [] => none
  match inner with
  | some (s, '\x27' :: rest) => some (letters ++ '\x27' :: s ++ ['\x27'], rest)
  | _ => none

def digits (cs : List Char) : List Char × List Char :=
  let isDigit (c : Char) := c.isDigit || c == '_'
  (cs.takeWhile isDigit, cs.dropWhile isDigit)

/-- The rest of an exponent after its mark: digits, and at most one sign before them. -/
def exponentBody? (signed hasDigit : Bool) : List Char → Option (List Char × List Char)
  | [] => if hasDigit then some ([], []) else none
  | c :: rest =>
    let go (signed hasDigit : Bool) :=
      (exponentBody? signed hasDigit rest).map fun (s, r) => (c :: s, r)
    if c.isDigit then go signed true
    else if c == '_' then go signed hasDigit
    else if hasDigit then some ([], c :: rest)
    else if (c == '+' || c == '-') && !signed then go true false
    else none

def exponent? : List Char → Option (List Char × List Char)
  | e :: rest =>
    if e == 'e' || e == 'E' then
      (exponentBody? false false rest).map fun (s, r) => (e :: s, r)
    else none
  | [] => none

def float? (cs : List Char) : Option (List Char × List Char) :=
  let (whole, rest) := digits cs
  match rest with
  | '.' :: after =>
    if (after.head?.map fun c => c == '.' || identStart c).getD false then none
    else
      let (places, rest) := digits after
      match exponent? rest with
      | some (e, rest) => some (whole ++ '.' :: places ++ e, rest)
      | none => some (whole ++ '.' :: places, rest)
  | rest => (exponent? rest).map fun (e, rest) => (whole ++ e, rest)

def integer? (cs : List Char) : Option (List Char × List Char) :=
  let inBase (letters : List Char) (base : Nat) (cs : List Char) :=
    let isDigit (c : Char) := c.isDigit || c == '_' ||
      (base == 16 && (('a' ≤ c && c ≤ 'f') || ('A' ≤ c && c ≤ 'F')))
    let ds := cs.takeWhile isDigit
    let tooLarge (c : Char) := c.isDigit && base ≤ c.toNat - '0'.toNat
    if ds.any (· != '_') && !ds.any tooLarge then
      some (letters ++ ds, cs.drop ds.length)
    else none
  match cs with
  | '0' :: 'x' :: rest => inBase ['0', 'x'] 16 rest
  | '0' :: 'o' :: rest => inBase ['0', 'o'] 8 rest
  | '0' :: 'b' :: rest => inBase ['0', 'b'] 2 rest
  | cs => inBase [] 10 cs

def quotedLiteral? (cs : List Char) : Option (List Char × List Char) :=
  match cs with
  | '\x22' :: rest => quoted? .text [] rest
  | 'r' :: rest => raw? .text ['r'] rest
  | 'b' :: '\x22' :: rest => quoted? .bytes ['b'] rest
  | 'b' :: 'r' :: rest => raw? .bytes ['b', 'r'] rest
  | 'b' :: '\x27' :: rest => apostrophe? .bytes ['b'] rest
  | 'c' :: '\x22' :: rest => quoted? .nulEnded ['c'] rest
  | 'c' :: 'r' :: rest => raw? .nulEnded ['c', 'r'] rest
  | '\x27' :: rest => apostrophe? .text [] rest
  | _ => none

def withSuffix (body : List Char) (rest : List Char) : String × List Char :=
  let (tail, rest) := suffix rest
  (String.ofList (body ++ tail), rest)

def number? (cs : List Char) : Option (String × List Char) :=
  let complete (number : Option (List Char × List Char)) : Option (String × List Char) := do
    let (body, rest) ← number
    let (text, rest) := withSuffix body rest
    if (rest.head?.map Identifier.isContinue).getD false then none else some (text, rest)
  if (cs.head?.map Char.isDigit).getD false then
    (complete (float? cs)).or (complete (integer? cs))
  else none

def literal? (cs : List Char) : Option (String × List Char) :=
  match quotedLiteral? cs with
  | some (body, rest) => some (withSuffix body rest)
  | none => number? cs

def lostLiteral : String := "(/*ERROR*/)"

/-- One punctuation character; an apostrophe has to start a lifetime. -/
def punct? (cs : List Char) : Option (Token × List Char) :=
  match cs with
  | '\x27' :: rest =>
    match anyIdent? rest with
    | some (_, after) =>
      if after.head? == some '\x27' ||
        (after.head? == some '#' && rest.take 2 != ['r', '#']) then none
      else some (.punct '\x27' true, rest)
    | none => none
  | c :: rest => if startsPunct cs then some (.punct c (startsPunct rest), rest) else none
  | [] => none

/-- The text of a block comment and what follows its end; block comments nest. -/
def blockComment (depth : Nat) : List Char → Option (List Char × List Char)
  | [] => none
  | '/' :: '*' :: rest => (blockComment (depth + 1) rest).map fun (s, r) => ('/' :: '*' :: s, r)
  | '*' :: '/' :: rest =>
    match depth with
    | 0 => some ([], rest)
    | depth + 1 => (blockComment depth rest).map fun (s, r) => ('*' :: '/' :: s, r)
  | c :: rest => (blockComment depth rest).map fun (s, r) => (c :: s, r)

def hasLoneReturn : List Char → Bool
  | [] => false
  | '\r' :: rest => rest.head? != some '\n' || hasLoneReturn rest
  | _ :: rest => hasLoneReturn rest

/-- A comment and what follows it; only documentation leaves a lexeme. -/
def comment? (cs : List Char) : Option Step :=
  let afterLine := cs.dropWhile (· != '\n')
  let line (skip : Nat) :=
    let text := (cs.drop skip).takeWhile (· != '\n')
    if !afterLine.isEmpty && text.getLast? == some '\r' then text.dropLast else text
  let documentation (inner : Bool) (text : List Char) (rest : List Char) : Step :=
    if hasLoneReturn text then none
    else some ([.comment inner (String.ofList text)], rest)
  match cs with
  | '/' :: '/' :: '!' :: _ => some (documentation true (line 3) afterLine)
  | '/' :: '/' :: '/' :: '/' :: _ => some (some ([], afterLine))
  | '/' :: '/' :: '/' :: _ => some (documentation false (line 3) afterLine)
  | '/' :: '/' :: _ => some (some ([], afterLine))
  | '/' :: '*' :: '*' :: '/' :: rest => some (some ([], rest))
  | '/' :: '*' :: '*' :: '*' :: rest =>
    some ((blockComment 0 ('*' :: '*' :: rest)).map fun (_, r) => ([], r))
  | '/' :: '*' :: '*' :: rest =>
    some ((blockComment 0 rest).bind fun (s, r) => documentation false s r)
  | '/' :: '*' :: '!' :: rest =>
    some ((blockComment 0 rest).bind fun (s, r) => documentation true s r)
  | '/' :: '*' :: rest => some ((blockComment 0 rest).map fun (_, r) => ([], r))
  | _ => none

def step (cs : List Char) : Step :=
  match comment? cs with
  | some outcome => outcome
  | none =>
    if lostLiteral.toList.isPrefixOf cs then
      some ([.leaf (.literal lostLiteral)], cs.drop lostLiteral.length)
    else
    match cs with
    | [] => none
    | '(' :: rest => some ([.opening .paren], rest)
    | ')' :: rest => some ([.closing .paren], rest)
    | '[' :: rest => some ([.opening .bracket], rest)
    | ']' :: rest => some ([.closing .bracket], rest)
    | '\x7b' :: rest => some ([.opening .brace], rest)
    | '\x7d' :: rest => some ([.closing .brace], rest)
    | c :: rest =>
      if isBlank c then some ([], rest)
      else
        match literal? cs with
        | some (s, rest) => some ([.leaf (.literal s)], rest)
        | none =>
          match punct? cs with
          | some (t, rest) => some ([.leaf t], rest)
          | none =>
            if startsLiteral cs then none
            else (anyIdent? cs).map fun (s, rest) => ([.leaf (.ident s)], rest)

def lexemes : Nat → List Char → Option (List Lexeme)
  | _, [] => some []
  | 0, _ :: _ => none
  | n + 1, cs =>
    match step cs with
    | none => none
    | some (ls, rest) => (lexemes n rest).map (ls ++ ·)

def documentationTokens (inner : Bool) (text : String) : List Token :=
  let mark := if inner then [.punct '#' false, .punct '!' false] else [.punct '#' false]
  mark ++ [.group .bracket
    [.ident "doc", .punct '=' false, .literal (Escape.quoted text)]]

/-- The bracket that is open and the trees read before it and inside it, latest first. -/
abbrev Frame := Delimiter × List Token

def nestStep (state : List Token × List Frame) : Lexeme → Option (List Token × List Frame)
  | .leaf t => some (t :: state.1, state.2)
  | .comment inner text => some ((documentationTokens inner text).reverse ++ state.1, state.2)
  | .opening d => some ([], (d, state.1) :: state.2)
  | .closing d =>
    match state.2 with
    | [] => none
    | (e, before) :: frames =>
      if d = e then some (.group d state.1.reverse :: before, frames) else none

def nest (ls : List Lexeme) : Option (List Token) :=
  match ls.foldlM nestStep ([], []) with
  | some (ts, []) => some ts.reverse
  | _ => none

/-- The token trees of a text. A byte order mark in front of it does not count. -/
def tokens? (text : String) : Option (List Token) :=
  let cs := match text.toList with
    | '\ufeff' :: rest => rest
    | cs => cs
  (lexemes cs.length cs).bind nest

end RecordStore.Lexer
