/-!
Token trees of a declaration. Brackets are matched, so a bracketed part is one tree; a punctuation
character says whether it is joined to the character after it, which is what tells `::` from two
colons and is all that decides where a space is printed.
-/
namespace RecordStore

inductive Delimiter where
  | paren
  | bracket
  | brace
  deriving DecidableEq, Repr

/-- A token tree. The text of an identifier includes a raw marker `r#`. -/
inductive Token where
  | ident (text : String)
  | punct (char : Char) (joint : Bool)
  | literal (text : String)
  | group (delimiter : Delimiter) (content : List Token)
  deriving Repr, Inhabited

namespace Delimiter

def opening : Delimiter → String
  | .paren => "("
  | .bracket => "["
  | .brace => "\x7b "

/-- The closing bracket; a brace keeps a space from what it closes. -/
def closing (empty : Bool) : Delimiter → String
  | .paren => ")"
  | .bracket => "]"
  | .brace => if empty then "\x7d" else " \x7d"

end Delimiter

namespace Token

def isJoint : Token → Bool
  | .punct _ joint => joint
  | _ => false

def operator (s : String) : List Token :=
  let rec go : List Char → List Token
    | [] => []
    | [c] => [.punct c false]
    | c :: rest => .punct c true :: go rest
  go s.toList

def comma : Token := .punct ',' false

def lifetime (name : String) : List Token := [.punct '\x27' true, .ident name]

mutual

def text : Token → String
  | .ident s => s
  | .punct c _ => c.toString
  | .literal s => s
  | .group d content =>
    d.opening ++ textOf content ++ d.closing content.isEmpty

def textOf : List Token → String
  | [] => ""
  | [t] => t.text
  | t :: u :: rest => t.text ++ (if t.isJoint then "" else " ") ++ textOf (u :: rest)

end

mutual

def size : Token → Nat
  | .group _ content => sizeOfAll content + 1
  | _ => 1

def sizeOfAll : List Token → Nat
  | [] => 0
  | t :: rest => t.size + sizeOfAll rest

end

def unraw (name : String) : String :=
  match name.toList with
  | 'r' :: '#' :: rest => String.ofList rest
  | _ => name

end Token

end RecordStore
