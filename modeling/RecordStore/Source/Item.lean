import RecordStore.Source.Grammar

/-!
Declarations as written: a struct, an enum or a union with its visibility. Of an enum or a union
only the name matters later, but all of it has to be well formed.
-/
namespace RecordStore

/-- A declaration. Only a struct with named fields lists its fields. -/
structure Item where
  visibility : List Token
  name : String
  isGeneric : Bool
  shape : ItemShape
  fields : List NamedField

namespace Item

open Reader

def read (r : Readers) : Reader Item := do
  let _ ← AttributeReader.outers r
  let visibility ← DataTypeReader.visibility r
  let d ← DataTypeReader.dataType r
  return ⟨fragmentTokens visibility, d.name, !d.generics.isEmpty, d.shape, d.fields⟩

def ofTokens? (ts : List Token) : Option Item :=
  (whole (read (Readers.suffice ts)) ts).toOption

def parse? (text : String) : Option Item := (Lexer.tokens? text).bind ofTokens?

end Item

end RecordStore
