import RecordStore.Model.Basic

/-!
The rows of one type name in the order they were inserted, with an index by primary key. Rows have
numbers that are never used again, so two versions of a table can be compared row by row.
-/
namespace RecordStore

/-- The rows of one type name. The index maps the text of a primary key to its row. -/
structure Table where
  rows : List (Nat × Values) := []
  keys : List (String × Nat) := []
  nextRow : Nat := 0
  deriving Repr, Inhabited

/-- Where two versions of a table differ. Deletions are positions in the older version, the others
positions in the newer one. -/
structure ChangeIndices where
  deletions : List Nat := []
  insertions : List Nat := []
  modifications : List Nat := []
  deriving DecidableEq, Repr

namespace ChangeIndices

def isEmpty (c : ChangeIndices) : Bool :=
  c.deletions.isEmpty && c.insertions.isEmpty && c.modifications.isEmpty

end ChangeIndices

namespace Table

/-- The text under which a row is found by its key; a row without one is found under null. -/
def keyText (values : Values) (field : String) : String :=
  ((values.get? field).getD .null).compact

def row? (t : Table) (row : Nat) : Option Values := t.rows.lookup row

/-- The row of a stored record. Of several rows with the same values it is the first. -/
def locate (t : Table) : Identity → Option Nat
  | .primaryKey v => t.keys.lookup v.compact
  | .snapshot values => (t.rows.find? fun r => Values.same r.2 values).map Prod.fst

def insert (t : Table) (typeName : String) (primaryKey? : Option String) (values : Values) :
    Except StoreError Table :=
  let rows := t.rows ++ [(t.nextRow, values)]
  match primaryKey? with
  | none => .ok { t with rows := rows, nextRow := t.nextRow + 1 }
  | some field =>
    let key := keyText values field
    if (t.keys.lookup key).isSome then .error (.duplicatePrimaryKey typeName key)
    else .ok ⟨rows, t.keys ++ [(key, t.nextRow)], t.nextRow + 1⟩

def replaceRow (row : Nat) (values : Values) : List (Nat × Values) → List (Nat × Values)
  | [] => []
  | (n, old) :: rest =>
    if n = row then (n, values) :: rest else (n, old) :: replaceRow row values rest

/-- Replaces the values of a row in its place. Its primary key has to stay. -/
def replace (t : Table) (typeName : String) (primaryKey? : Option String) (row : Nat)
    (values : Values) : Except StoreError Table :=
  match t.row? row with
  | none => .error (.objectNotFound typeName)
  | some old =>
    let replaced := { t with rows := replaceRow row values t.rows }
    match primaryKey? with
    | none => .ok replaced
    | some field =>
      let before := keyText old field
      let after := keyText values field
      if before = after then .ok replaced
      else .error (.primaryKeyChanged typeName before after)

def remove (t : Table) (primaryKey? : Option String) (row : Nat) : Table :=
  match t.row? row with
  | none => t
  | some values =>
    let rows := t.rows.filter (·.1 != row)
    match primaryKey? with
    | none => { t with rows := rows }
    | some field =>
      let key := keyText values field
      { t with rows := rows, keys := t.keys.filter (·.1 != key) }

def records (t : Table) (m : Model) : Except StoreError (List Record) :=
  t.rows.mapM fun r => m.fromValues r.2

def positions {α : Type} (test : α → Bool) (items : List α) : List Nat :=
  (items.zipIdx.filter fun p => test p.1).map Prod.snd

/-- Where a table differs from an older version. Rows are compared by number and by value. -/
def changesSince (t : Table) (old : Table) : ChangeIndices where
  deletions := positions (fun r => (t.row? r.1).isNone) old.rows
  insertions := positions (fun r => (old.row? r.1).isNone) t.rows
  modifications := positions (fun r =>
    match old.row? r.1 with
    | none => false
    | some before => !Values.same before r.2) t.rows

end Table

/-- Tables by type name. -/
abbrev Tables := List (String × Table)

namespace Tables

def get? (tables : Tables) (typeName : String) : Option Table := tables.lookup typeName

/-- The table of a type name; one that is not there is empty. -/
def table (tables : Tables) (typeName : String) : Table := (tables.get? typeName).getD {}

def set (tables : Tables) (typeName : String) (t : Table) : Tables :=
  match tables with
  | [] => [(typeName, t)]
  | (n, u) :: rest => if n == typeName then (n, t) :: rest else (n, u) :: set rest typeName t

end Tables

end RecordStore
