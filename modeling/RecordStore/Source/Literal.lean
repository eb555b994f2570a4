import RecordStore.Source.Lexer

/-!
What a literal token stands for: its kind, and the text or the number that it denotes.
-/
namespace RecordStore

inductive LiteralKind where
  | string (value : String)
  | byteString
  | nulString
  | byte
  | char
  | int
  | float
  /-- A literal that was lost to an error. -/
  | lost
  deriving DecidableEq, Repr

namespace Literal

def isSkipped (c : Char) : Bool := c == ' ' || c == '\t' || c == '\n' || c == '\r'

/-- The text between the quotes of a literal with its escapes resolved and line breaks written as
one character. A backslash before a line break drops the break and the blanks after it. -/
def unescape : Nat → List Char → List Char
  | 0, _ => []
  | _, [] => []
  | _, '\x22' :: _ => []
  | n + 1, '\r' :: '\n' :: rest => '\n' :: unescape n rest
  | n + 1, '\\' :: 'x' :: a :: b :: rest =>
    Char.ofNat (Lexer.hexValue [a, b]) :: unescape n rest
  | n + 1, '\\' :: 'u' :: '\x7b' :: rest =>
    let ds := rest.takeWhile (· != '\x7d')
    Char.ofNat (Lexer.hexValue ds) :: unescape n (rest.drop (ds.length + 1))
  | n + 1, '\\' :: c :: rest =>
    if c = '\n' ∨ c = '\r' then unescape n (rest.dropWhile isSkipped)
    else
      let d := if c = 'n' then '\n' else if c = 'r' then '\r' else if c = 't' then '\t'
        else if c = '0' then '\x00' else c
      d :: unescape n rest
  | n + 1, c :: rest => c :: unescape n rest

def rawText (cs : List Char) : List Char :=
  let marks := (cs.takeWhile (· == '#')).length
  match Lexer.rawBody .text marks (cs.drop (marks + 1)) with
  | some (body, _) => body.take (body.length - (marks + 1))
  | none => []

def digit? (base : Nat) (c : Char) : Option Nat :=
  if Lexer.isHex c && (c.isDigit || 10 < base) then some (Lexer.hexValue [c]) else none

def startsExponent (cs : List Char) : Bool :=
  ((cs.dropWhile (· == '_')).head?.map fun c => c.isDigit || c == '+' || c == '-').getD false

/-- The value and the suffix of digits in a base, unless they go on with a point or an exponent. -/
def digitsValue? (base value : Nat) : List Char → Option (Nat × List Char)
  | [] => some (value, [])
  | c :: rest =>
    match digit? base c with
    | some d => digitsValue? base (base * value + d) rest
    | none =>
      if c = '_' then digitsValue? base value rest
      else if base = 10 && (c = '.' || ((c = 'e' || c = 'E') && startsExponent rest)) then none
      else some (value, c :: rest)

def integer? (cs : List Char) : Option (Nat × List Char) :=
  match cs with
  | '0' :: 'x' :: rest => digitsValue? 16 0 rest
  | '0' :: 'o' :: rest => digitsValue? 8 0 rest
  | '0' :: 'b' :: rest => digitsValue? 2 0 rest
  | cs => digitsValue? 10 0 cs

def kind (text : String) : LiteralKind :=
  let cs := text.toList
  match cs with
  | '\x22' :: rest => .string (String.ofList (unescape (rest.length + 1) rest))
  | 'r' :: rest => .string (String.ofList (rawText rest))
  | 'b' :: '\x27' :: _ => .byte
  | 'b' :: _ => .byteString
  | 'c' :: _ => .nulString
  | '\x27' :: _ => .char
  | '(' :: _ => .lost
  | _ => if (integer? cs).isSome then .int else .float

def isString (text : String) : Bool :=
  match kind text with
  | .string _ => true
  | _ => false

def isNumber (text : String) : Bool :=
  match kind text with
  | .int | .float => true
  | _ => false

end Literal

end RecordStore
