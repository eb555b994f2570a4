import RecordStore.Derive.Error

/-!
Generated code: the terms, statements and methods that an expansion is made of. Each has its
tokens, and what a method names as parameters or binds in its body can be read off it.
-/
namespace RecordStore.Code

open Token

mutual

/-- A term. A comma may follow the last argument of a call. -/
inductive Term where
  | name (ident : String)
  | path (tokens : List Token)
  | text (value : String)
  | truth (value : Bool)
  | unit
  | field (of : Term) (name : String)
  | call (function : Term) (arguments : List Term) (trailing : Bool)
  | method (receiver : Term) (name : String) (types : List Token) (arguments : List Term)
      (trailing : Bool)
  | await (of : Term)
  /-- The value, or an early return with the error. -/
  | propagate (of : Term)
  | borrow (of : Term)
  | borrowMut (of : Term)
  | array (items : List Term)
  | record (type : String) (fields : List (String × Term))
  /-- A function of one parameter that takes over what it uses. -/
  | closure (parameter : String) (body : Term)
  | block (body : List Statement) (result : Option Term)

inductive Statement where
  | bind (mutable : Bool) (name : String) (value : Term)
  | evaluate (value : Term)
  | assign (target value : Term)
  /-- Runs the body where the value is present, with a name for what is in it. -/
  | whenSome (name : String) (value : Term) (body : List Statement)

end

def dot : Token := .punct '.' false
def colon : Token := .punct ':' false
def equals : Token := .punct '=' false
def ampersand : Token := .punct '&' false
def semicolon : Token := .punct ';' false
def bar : Token := .punct '|' false

def pathOf (names : List String) : List Token :=
  separated (operator "::") false (names.map fun s => [.ident s])

def globalPath (names : List String) : List Token := operator "::" ++ pathOf names

def applied (type : List Token) (arguments : List (List Token)) : List Token :=
  type ++ .punct '<' false :: separated [.comma] false arguments ++ [.punct '>' false]

mutual

def Term.tokens : Term → List Token
  | .name s => [.ident s]
  | .path ts => ts
  | .text s => [ExpansionError.stringLiteral s]
  | .truth b => [.ident (if b then "true" else "false")]
  | .unit => [.group .paren []]
  | .field t name => t.tokens ++ [dot, .ident name]
  | .call f arguments trailing =>
    f.tokens ++ [.group .paren (separated [.comma] trailing (termTokens arguments))]
  | .method t name types arguments trailing =>
    t.tokens ++ [dot, .ident name] ++
      (if types.isEmpty then [] else applied (operator "::") [types]) ++
        [.group .paren (separated [.comma] trailing (termTokens arguments))]
  | .await t => t.tokens ++ [dot, .ident "await"]
  | .propagate t => t.tokens ++ [.punct '?' false]
  | .borrow t => ampersand :: t.tokens
  | .borrowMut t => ampersand :: .ident "mut" :: t.tokens
  | .array items => [.group .bracket (separated [.comma] false (termTokens items))]
  | .record type fields => [.ident type, .group .brace (fieldTokens fields)]
  | .closure p body => .ident "move" :: bar :: .ident p :: bar :: body.tokens
  | .block body result =>
    [.group .brace (statementTokens body ++
      (match result with
       | some t => t.tokens
       | none => []))]

def termTokens : List Term → List (List Token)
  | [] => []
  | t :: rest => t.tokens :: termTokens rest

def fieldTokens : List (String × Term) → List Token
  | [] => []
  | (name, t) :: rest => .ident name :: colon :: t.tokens ++ .comma :: fieldTokens rest

def Statement.tokens : Statement → List Token
  | .bind mutable name value =>
    .ident "let" :: (if mutable then [.ident "mut"] else []) ++
      .ident name :: equals :: value.tokens ++ [semicolon]
  | .evaluate t => t.tokens ++ [semicolon]
  | .assign target value => target.tokens ++ equals :: value.tokens ++ [semicolon]
  | .whenSome name value body =>
    .ident "if" :: .ident "let" :: globalPath ["core", "option", "Option", "Some"] ++
      .group .paren [.ident name] :: equals :: value.tokens ++
        [.group .brace (statementTokens body)]

def statementTokens : List Statement → List Token
  | [] => []
  | s :: rest => s.tokens ++ statementTokens rest

end

def docLine (line : String) : List Token :=
  [.punct '#' false, .group .bracket [.ident "doc", equals,
    .literal ("r\"" ++ (if line.isEmpty then "" else " " ++ line) ++ "\"")]]

def docText (text : String) : List Token :=
  [.punct '#' false, .group .bracket [.ident "doc", equals, ExpansionError.stringLiteral text]]

/-- How a method takes the value it is called on. -/
inductive Receiver where
  | none
  | shared
  | mutable
  deriving DecidableEq, Repr

namespace Receiver

def tokens : Receiver → List (List Token)
  | .none => []
  | .shared => [[ampersand, .ident "self"]]
  | .mutable => [[ampersand, .ident "mut", .ident "self"]]

end Receiver

structure Parameter where
  name : String
  type : List Token

namespace Parameter

def tokens (p : Parameter) : List Token := .ident p.name :: colon :: p.type

end Parameter

/-- A method. A comma may follow its last parameter. -/
structure Method where
  doc : List Token := []
  visibility : List Token := []
  isAsync : Bool := false
  name : String
  receiver : Receiver := .shared
  parameters : List Parameter := []
  trailing : Bool := false
  result : List Token := []
  body : List Statement := []
  value : Option Term := none

namespace Method

def tokens (m : Method) : List Token :=
  m.doc ++ m.visibility ++ (if m.isAsync then [.ident "async"] else []) ++
    [.ident "fn", .ident m.name, .group .paren (separated [.comma] m.trailing
      (m.receiver.tokens ++ m.parameters.map Parameter.tokens))] ++
    (if m.result.isEmpty then [] else operator "->" ++ m.result) ++
    (Term.block m.body m.value).tokens

end Method

mutual

def Term.bound : Term → List String
  | .name _ | .path _ | .text _ | .truth _ | .unit => []
  | .field t _ | .await t | .propagate t | .borrow t | .borrowMut t => t.bound
  | .call f arguments _ => f.bound ++ boundInTerms arguments
  | .method t _ _ arguments _ => t.bound ++ boundInTerms arguments
  | .array items => boundInTerms items
  | .record _ fields => boundInFields fields
  | .closure p body => p :: body.bound
  | .block body result =>
    boundInStatements body ++
      (match result with
       | some t => t.bound
       | none => [])

def boundInTerms : List Term → List String
  | [] => []
  | t :: rest => t.bound ++ boundInTerms rest

def boundInFields : List (String × Term) → List String
  | [] => []
  | (_, t) :: rest => t.bound ++ boundInFields rest

def Statement.bound : Statement → List String
  | .bind _ name value => name :: value.bound
  | .evaluate t => t.bound
  | .assign target value => target.bound ++ value.bound
  | .whenSome name value body => name :: value.bound ++ boundInStatements body

def boundInStatements : List Statement → List String
  | [] => []
  | s :: rest => s.bound ++ boundInStatements rest

end

namespace Method

def bound (m : Method) : List String := (Term.block m.body m.value).bound

end Method

end RecordStore.Code
