import RecordStore.Model.Basic

/-!
Some models to use the store with. Users and posts are those of a feed; the others are there for the
kinds of fields and keys that they have, and three of them are versions of one: they have one type
name and so one table, but not the same primary key or field types.
-/
namespace RecordStore.Model

def todo : Model where
  typeName := "Todo"
  fields := [
    { name := "id", type := .objectId, isPrimaryKey := true },
    { name := "name", type := .string },
    { name := "owner", type := .string, isIndexed := true },
    { name := "status", type := .string }]
  transient := [⟨"ignored", .option .string, .absent⟩]

def post : Model where
  typeName := "Post"
  fields := [
    { name := "id", type := .objectId, isPrimaryKey := true },
    { name := "sender_id", type := .string, isIndexed := true },
    { name := "content", type := .string },
    { name := "posted_at", type := .u64 }]

def user : Model where
  typeName := "User"
  fields := [
    { name := "id", type := .objectId, isPrimaryKey := true },
    { name := "user_id", type := .string, isIndexed := true },
    { name := "user_name", type := .string },
    { name := "signed_up_at", type := .u64 },
    { name := "signed_in_at", type := .u64 },
    { name := "posts", type := .list (.struct .post) }]

def note : Model where
  typeName := "Note"
  fields := [
    { name := "type", type := .string },
    { name := "text", type := .string },
    { name := "object", type := .string },
    { name := "configuration", type := .option .string }]

def sensor : Model where
  typeName := "Sensor"
  fields := [
    { name := "name", type := .string },
    { name := "reading", type := .f64 }]

def account : Model where
  typeName := "Account"
  fields := [
    { name := "id", type := .string, isPrimaryKey := true },
    { name := "owner", type := .string, isIndexed := true },
    { name := "balance", type := .i64 }]

def accountV2 : Model where
  typeName := "Account"
  fields := [
    { name := "id", type := .string },
    { name := "owner", type := .string, isPrimaryKey := true, isIndexed := true },
    { name := "balance", type := .option .string }]

def rawAccount : Model where
  typeName := "Account"
  fields := [{ name := "id", type := .json, isPrimaryKey := true }]
  form := .verbatim

def gauge : Model where
  typeName := "Gauge"
  fields := [
    { name := "level", type := .f64, isPrimaryKey := true },
    { name := "label", type := .option .string }]

def slot : Model where
  typeName := "Slot"
  fields := [
    { name := "key", type := .option .u32, isPrimaryKey := true },
    { name := "tags", type := .list .string }]

def node : Model where
  typeName := "Node"
  fields := [
    { name := "label", type := .string },
    { name := "children", type := .list (.struct .node) },
    { name := "parent", type := .option (.box (.struct .node)) }]

def blob : Model where
  typeName := "Blob"
  fields := [
    { name := "digest", type := .array .u8 4, isPrimaryKey := true },
    { name := "pair", type := .tuple [.u8, .bool] },
    { name := "scores", type := .map .string (.list .u32) },
    { name := "initial", type := .char },
    { name := "delta", type := .i8 },
    { name := "status", type := .enum .status, isIndexed := true },
    { name := "comments", type := .list (.struct .comment) }]
  transient := [⟨"cache", .list .string, .list []⟩]

def blank : Model where
  typeName := "Blank"
  fields := []
  transient := [⟨"count", .u32, .integer 0⟩]

def login : Model where
  typeName := "Login"
  fields := [
    { name := "token", type := .string, isPrimaryKey := true },
    { name := "user", type := .string }]
  transient := [⟨"live", .bool, .bool false⟩]

def catalog : List (String × Model) := [
  ("Todo", todo), ("Post", post), ("User", user), ("Note", note), ("Sensor", sensor),
  ("Account", account), ("AccountV2", accountV2), ("RawAccount", rawAccount), ("Gauge", gauge),
  ("Slot", slot), ("Node", node), ("Blob", blob), ("Blank", blank), ("Login", login)]

def ofName? (name : String) : Option Model := catalog.lookup name

end RecordStore.Model
