import RecordStore.Field.Decoding
import RecordStore.Field.Encoding
import RecordStore.Store.Error

/-!
The configuration by which a store is opened. Handles with one identifier share a store; a store
that was only ever opened in memory is discarded with its last handle.
-/
namespace RecordStore

structure Configuration where
  identifier : String := "default"
  readOnly : Bool := false
  inMemory : Bool := false
  deriving DecidableEq, Repr

namespace Configuration

def volatile (identifier : String) : Configuration := ⟨identifier, false, true⟩

def named (identifier : String) : Configuration := ⟨identifier, false, false⟩

def withReadOnly (c : Configuration) (readOnly : Bool) : Configuration :=
  { c with readOnly := readOnly }

def isDefault (c : Configuration) : Bool := c == {}

def toData (c : Configuration) : Data :=
  .struct [("identifier", .string c.identifier), ("read_only", .bool c.readOnly),
    ("in_memory", .bool c.inMemory)]

def ofData : Data → Configuration
  | .struct [(_, .string identifier), (_, .bool readOnly), (_, .bool inMemory)] =>
    ⟨identifier, readOnly, inMemory⟩
  | _ => {}

def decode (v : Json) : Except StoreError Configuration :=
  match Data.decode v (.struct .configuration) with
  | .ok d => .ok (ofData d)
  | .error e => .error (.serialization e)

end Configuration

end RecordStore
