import RecordStore.Source.Reader

/-!
Expressions and patterns as written. Each is kept as its tokens with the types in it marked; what
else matters of an expression is which kind it is at the top. The grammar is a set of readers that
need one another at a deeper level of nesting.
-/
namespace RecordStore

/-- What kind of expression stands at the top of an expression. -/
inductive ExpressionKind where
  | literal | array | assign | async | await | binary | block | break_ | call | cast | closure
  /-- A binary operation that compares. -/
  | comparison
  | const | continue_ | field | forLoop | if_ | index | infer | let_ | loop | invocation | match_
  | methodCall | paren | path | range
  /-- The address of a place without a reference to it. -/
  | rawAddress
  | reference | repeat_ | return_ | struct | try_ | tryBlock | tuple | unary | unsafe_
  /-- An expression that is kept as it stands. -/
  | verbatim
  | while_ | yield
  deriving DecidableEq, Repr

/-- How tightly an operator binds, the loosest first. -/
inductive Rank where
  | assign | range | or | and | compare | bitOr | bitXor | bitAnd | shift | sum | product | cast
  /-- Tighter than every operator between operands. -/
  | operand
  deriving DecidableEq, Repr

namespace Rank

def level : Rank → Nat
  | .assign => 0
  | .range => 1
  | .or => 2
  | .and => 3
  | .compare => 4
  | .bitOr => 5
  | .bitXor => 6
  | .bitAnd => 7
  | .shift => 8
  | .sum => 9
  | .product => 10
  | .cast => 11
  | .operand => 12

/-- How tightly operators have to bind on the right of one. Assignments nest to the right. -/
def onRight : Rank → Rank
  | .assign => .assign
  | .range => .or
  | .or => .and
  | .and => .compare
  | .compare => .bitOr
  | .bitOr => .bitXor
  | .bitXor => .bitAnd
  | .bitAnd => .shift
  | .shift => .sum
  | .sum => .product
  | .product => .cast
  | .cast => .operand
  | .operand => .operand

end Rank

/-- An expression, and whether its first operand is kept as it stands. Such an operand takes no
attributes. -/
structure Expression where
  kind : ExpressionKind
  fragments : List Fragment
  startsVerbatim : Bool := kind == .verbatim

namespace Expression

def endsInBraces (fs : List Fragment) : Bool :=
  match (fragmentTokens fs).getLast? with
  | some (.group .brace _) => true
  | _ => false

def needsComma (e : Expression) : Bool :=
  match e.kind with
  | .if_ | .match_ | .block | .unsafe_ | .while_ | .loop | .forLoop | .tryBlock | .const => false
  | _ => true

def needsSemicolon (e : Expression) : Bool :=
  e.needsComma && !(e.kind == .invocation && endsInBraces e.fragments)

/-- The expression with attributes before it. A range is put in parentheses for them. -/
def withAttributes (attributes : List Fragment) (e : Expression) : Expression :=
  if e.startsVerbatim || attributes.isEmpty then e
  else if e.kind = .range then { e with fragments := attributes ++ [.group .paren e.fragments] }
  else { e with fragments := attributes ++ e.fragments }

end Expression

/-- Patterns that some places do not take as they take others. -/
inductive PatternKind where
  /-- Two points that stand for the rest. -/
  | rest
  /-- A range without one of its ends. -/
  | openRange
  /-- A pattern that is kept as it stands. -/
  | verbatim
  | other
  deriving DecidableEq, Repr

structure Pattern where
  kind : PatternKind
  fragments : List Fragment

/-- Readers for what may be nested, and a bound on how often a reader repeats itself. -/
structure Readers where
  fuel : Nat
  /-- A type; `plus` admits a sum of bounds without brackets. -/
  type (plus : Bool) : Reader TypeExpr
  /-- An argument in angle brackets. -/
  argument : Reader TypeArgument
  /-- A parameter in angle brackets. -/
  parameter : Reader (List Fragment)
  /-- An expression whose operators bind at least so tightly; `structs` admits a struct literal. -/
  expression (structs : Bool) (rank : Rank) : Reader Expression
  /-- An expression that ends with the block that it starts with, if it starts with one. -/
  bounded : Reader Expression
  /-- A pattern without alternatives. -/
  pattern : Reader Pattern
  /-- Statements to the end of a part in braces. -/
  statements : Reader (List Fragment)
  /-- An item inside a part in braces. -/
  item : Reader (List Fragment)

namespace Readers

def anyExpression (r : Readers) : Reader Expression := r.expression true .assign

def typeFragment (r : Readers) (plus : Bool) : Reader (List Fragment) := do
  return [.type (← r.type plus)]

def block (r : Readers) : Reader (List Fragment) := Reader.grouped .brace r.statements

end Readers

end RecordStore
