import RecordStore.Json.Basic
import RecordStore.Number.Shortest
import RecordStore.Text.Escape

/-!
Stored values as text: the compact form, which serves as the text of a primary key, and the
structural form shown when a reference to a record is displayed.
-/
namespace RecordStore.Json

/-- Numbers are positional from 0.00001 to below ten to the sixteenth, always with a fractional
digit there, and have a signed exponent elsewhere. -/
def floatLayout : Shortest.Layout where
  positionalAbove := -5
  positionalUpTo := 16
  wholeSuffix := ".0"
  exponentMark := "e"
  exponentPlus := "+"

/-- The text of a floating-point number; only a finite one is ever stored. -/
def floatText (x : Binary64) : String :=
  let sign := if x.negative then "-" else ""
  if x.isNaN then "NaN"
  else if !x.isFinite then sign ++ "inf"
  else if x.isZero then sign ++ "0.0"
  else sign ++ (Shortest.ofBinary64 x).render floatLayout

def escapeChar (c : Char) : String :=
  if c = '\x22' then "\\\""
  else if c = '\\' then "\\\\"
  else if c = '\x08' then "\\b"
  else if c = '\x0c' then "\\f"
  else if c = '\n' then "\\n"
  else if c = '\r' then "\\r"
  else if c = '\t' then "\\t"
  else if c.toNat < 0x10 then "\\u000" ++ Escape.hex c.toNat
  else if c.toNat < 0x20 then "\\u00" ++ Escape.hex c.toNat
  else c.toString

def quote (s : String) : String := "\"" ++ String.join (s.toList.map escapeChar) ++ "\""

def scalarText : Json → String
  | .null => "null"
  | .bool b => if b then "true" else "false"
  | .integer n => toString n
  | .float x => floatText x
  | .string s => quote s
  | .array _ => "[]"
  | .object _ => "\x7b\x7d"

mutual

def compact : Json → String
  | .array items => "[" ++ ",".intercalate (compactItems items) ++ "]"
  | .object entries => "\x7b" ++ ",".intercalate (compactEntries entries) ++ "\x7d"
  | scalar => scalarText scalar

def compactItems : List Json → List String
  | [] => []
  | item :: rest => compact item :: compactItems rest

def compactEntries : List (String × Json) → List String
  | [] => []
  | (key, value) :: rest => (quote key ++ ":" ++ compact value) :: compactEntries rest

end

mutual

def structural : Json → String
  | .null => "Null"
  | .bool b => "Bool(" ++ (if b then "true" else "false") ++ ")"
  | .string s => "String(" ++ Escape.quoted s ++ ")"
  | .array items => "Array [" ++ ", ".intercalate (structuralItems items) ++ "]"
  | .object entries => "Object \x7b" ++ ", ".intercalate (structuralEntries entries) ++ "\x7d"
  | number => "Number(" ++ scalarText number ++ ")"

def structuralItems : List Json → List String
  | [] => []
  | item :: rest => structural item :: structuralItems rest

def structuralEntries : List (String × Json) → List String
  | [] => []
  | (key, value) :: rest =>
    (Escape.quoted key ++ ": " ++ structural value) :: structuralEntries rest

end

end RecordStore.Json
