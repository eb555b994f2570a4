import RecordStore.Json.Numeral

/-!
Reading JSON text into stored values. What a text holds is bounded by its length; values nest no
deeper than a fixed bound, and text that goes beyond it is refused.
-/
namespace RecordStore.Json

def isBlank (c : Char) : Bool := c == ' ' || c == '\n' || c == '\r' || c == '\t'

def skipBlanks (cs : List Char) : List Char := cs.dropWhile isBlank

def hexDigit? (c : Char) : Option Nat :=
  if c.isDigit then some (c.toNat - '0'.toNat)
  else if 'a' ≤ c && c ≤ 'f' then some (c.toNat - 'a'.toNat + 10)
  else if 'A' ≤ c && c ≤ 'F' then some (c.toNat - 'A'.toNat + 10)
  else none

def hex4? (a b c d : Char) : Option Nat := do
  let a ← hexDigit? a
  let b ← hexDigit? b
  let c ← hexDigit? c
  let d ← hexDigit? d
  return ((a * 16 + b) * 16 + c) * 16 + d

def simpleEscape? (c : Char) : Option Char :=
  if c = '\x22' ∨ c = '\\' ∨ c = '/' then some c
  else if c = 'b' then some '\x08'
  else if c = 'f' then some '\x0c'
  else if c = 'n' then some '\n'
  else if c = 'r' then some '\r'
  else if c = 't' then some '\t'
  else none

/-- Reads the rest of a string after its opening quote. Two escapes that form a surrogate pair
are one character; half a pair is refused. -/
def stringBody : List Char → Option (List Char × List Char)
  | [] => none
  | '\x22' :: rest => some ([], rest)
  | '\\' :: 'u' :: a :: b :: c :: d :: rest =>
    match hex4? a b c d with
    | none => none
    | some n =>
      if n < 0xd800 ∨ 0xe000 ≤ n then
        (stringBody rest).map fun (s, r) => (Char.ofNat n :: s, r)
      else if 0xdc00 ≤ n then none
      else
        match rest with
        | '\\' :: 'u' :: e :: f :: g :: h :: rest =>
          match hex4? e f g h with
          | none => none
          | some m =>
            if 0xdc00 ≤ m ∧ m < 0xe000 then
              (stringBody rest).map fun (s, r) =>
                (Char.ofNat (0x10000 + (n - 0xd800) * 0x400 + (m - 0xdc00)) :: s, r)
            else none
        | _ => none
  | '\\' :: c :: rest =>
    match simpleEscape? c with
    | none => none
    | some e => (stringBody rest).map fun (s, r) => (e :: s, r)
  | c :: rest =>
    if c.toNat < 0x20 then none else (stringBody rest).map fun (s, r) => (c :: s, r)

def maxNesting : Nat := 127

mutual

/-- Reads one value; `size` bounds what it holds, and `nesting` how deep it may nest. -/
def value? (size nesting : Nat) (cs : List Char) : Option (Json × List Char) :=
  match size with
  | 0 => none
  | size + 1 =>
    match skipBlanks cs with
    | 'n' :: 'u' :: 'l' :: 'l' :: rest => some (.null, rest)
    | 't' :: 'r' :: 'u' :: 'e' :: rest => some (.bool true, rest)
    | 'f' :: 'a' :: 'l' :: 's' :: 'e' :: rest => some (.bool false, rest)
    | '\x22' :: rest => (stringBody rest).map fun (s, r) => (.string (String.ofList s), r)
    | '[' :: rest =>
      match nesting with
      | 0 => none
      | nesting + 1 =>
        match skipBlanks rest with
        | ']' :: rest => some (.array [], rest)
        | rest => (items? size nesting rest).map fun (xs, r) => (.array xs, r)
    | '\x7b' :: rest =>
      match nesting with
      | 0 => none
      | nesting + 1 =>
        match skipBlanks rest with
        | '\x7d' :: rest => some (.object [], rest)
        | rest =>
          (entries? size nesting rest).map fun (es, r) => (.object (Values.ofEntries es), r)
    | rest => (Numeral.read rest).toOption

def items? (size nesting : Nat) (cs : List Char) : Option (List Json × List Char) :=
  match size with
  | 0 => none
  | size + 1 =>
    match value? size nesting cs with
    | none => none
    | some (x, rest) =>
      match skipBlanks rest with
      | ',' :: rest => (items? size nesting rest).map fun (xs, r) => (x :: xs, r)
      | ']' :: rest => some ([x], rest)
      | _ => none

def entries? (size nesting : Nat) (cs : List Char) :
    Option (List (String × Json) × List Char) :=
  match size with
  | 0 => none
  | size + 1 =>
    match skipBlanks cs with
    | '\x22' :: rest =>
      match stringBody rest with
      | none => none
      | some (key, rest) =>
        match skipBlanks rest with
        | ':' :: rest =>
          match value? size nesting rest with
          | none => none
          | some (v, rest) =>
            match skipBlanks rest with
            | ',' :: rest =>
              (entries? size nesting rest).map fun (es, r) => ((String.ofList key, v) :: es, r)
            | '\x7d' :: rest => some ([(String.ofList key, v)], rest)
            | _ => none
        | _ => none
    | _ => none

end

def parse? (text : String) : Option Json :=
  let cs := text.toList
  match value? (2 * cs.length + 1) maxNesting cs with
  | some (value, rest) => if (skipBlanks rest).isEmpty then some value else none
  | none => none

end RecordStore.Json
