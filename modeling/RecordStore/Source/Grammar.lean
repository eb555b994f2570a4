import RecordStore.Source.ItemReader
import RecordStore.Source.StatementReader

/-!
The grammar of types, expressions and items. Readers for one level of nesting are made from those
for the level below; no text nests deeper than a few levels for each of its tokens, so a level above
that count reads it all.
-/
namespace RecordStore

namespace Readers

def none (fuel : Nat) : Readers where
  fuel := fuel
  type _ := Reader.refuse "expected type"
  argument := Reader.refuse "expected type"
  parameter := Reader.refuse "expected identifier"
  expression _ _ := Reader.refuse "expected an expression"
  bounded := Reader.refuse "expected an expression"
  pattern := Reader.refuse "expected identifier"
  statements := Reader.refuse "expected an expression"
  item := Reader.refuse "expected identifier"

def above (below : Readers) : Readers where
  fuel := below.fuel
  type := TypeReader.step below
  argument := TypeReader.argument below
  parameter := TypeReader.parameter below
  expression := ExpressionReader.step below
  bounded := ExpressionReader.boundedStep below
  pattern := PatternReader.step below
  statements := StatementReader.step below
  item := ItemReader.step below

def level (fuel : Nat) : Nat → Readers
  | 0 => none fuel
  | n + 1 => above (level fuel n)

def suffice (ts : List Token) : Readers :=
  let size := Token.sizeOfAll ts
  level (4 * size + 8) (4 * size + 8)

end Readers

namespace TypeExpr

def ofTokens? (ts : List Token) : Option TypeExpr :=
  (Reader.whole ((Readers.suffice ts).type true) ts).toOption

def parse? (text : String) : Option TypeExpr :=
  (Lexer.tokens? text).bind ofTokens?

end TypeExpr

namespace Attribute

def parse? (text : String) : Option (List Attribute) := do
  let ts ← Lexer.tokens? text
  (Reader.whole (AttributeReader.outers (Readers.suffice ts)) ts).toOption

end Attribute

end RecordStore
