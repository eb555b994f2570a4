import RecordStore.Proofs.Store.History

/-!
A store as plain lists. For every type name there is a list of stored maps, and nothing else: no row
numbers, no index, no copies. A table does to its rows what is done to such a list, and fails where
that fails and for the same reason.
-/
namespace RecordStore

open Table (keyText)

/-- The lists of stored maps, by type name. -/
abbrev Lists := String → List Values

namespace ListStore

def insert (m : Model) (row : Values) (rows : List Values) : Except StoreError (List Values) :=
  match m.primaryKey? with
  | none => .ok (rows ++ [row])
  | some field =>
    if rows.any fun old => keyText old field == keyText row field then
      .error (.duplicatePrimaryKey m.typeName (keyText row field))
    else .ok (rows ++ [row])

/-- The first counterpart of a record that would be stored as a given map, with its position. -/
def find (m : Model) (wanted : Values) (rows : List Values) : Except StoreError (Nat × Values) :=
  match rows.findIdx? (m.isCounterpart wanted) with
  | none => .error (.objectNotFound m.typeName)
  | some k => .ok (k, (rows[k]?).getD [])

def replace (m : Model) (k : Nat) (old row : Values) (rows : List Values) :
    Except StoreError (List Values) :=
  match m.primaryKey? with
  | none => .ok (rows.set k row)
  | some field =>
    if keyText old field = keyText row field then .ok (rows.set k row)
    else .error (.primaryKeyChanged m.typeName (keyText old field) (keyText row field))

/-- Creates a record from a map, and keeps what it is normalised to. -/
def create (m : Model) (values : Values) (rows : List Values) :
    Except StoreError (Record × List Values) := do
  let r ← m.fromValues values
  let row ← r.toValues
  return (r, ← insert m row rows)

def add (m : Model) (stored : Values) (rows : List Values) :
    Except StoreError (Unit × List Values) := do
  return ((), ← insert m stored rows)

/-- Reads a counterpart. -/
def resolve (m : Model) (wanted : Values) (rows : List Values) :
    Except StoreError (Record × List Values) := do
  let (_, old) ← find m wanted rows
  return (← m.fromValues old, rows)

/-- Changes some fields of a counterpart. -/
def update (m : Model) (wanted : Values) (changes : List (String × Data)) (rows : List Values) :
    Except StoreError (Record × List Values) := do
  let (k, old) ← find m wanted rows
  let r ← m.fromValues old
  let row ← (r.setAll changes).toValues
  return (r.setAll changes, ← replace m k old row rows)

def delete (m : Model) (wanted : Values) (rows : List Values) :
    Except StoreError (Unit × List Values) := do
  let (k, _) ← find m wanted rows
  return ((), rows.eraseIdx k)

/-- Reads the maps in order. -/
def list (m : Model) (rows : List Values) : Except StoreError (List Record) :=
  rows.mapM m.fromValues

end ListStore

/-- A table whose rows have given values, in order and indexed. -/
structure Table.Holds (t : Table) (primaryKey? : Option String) (rows : List Values) : Prop where
  ordered : t.Ordered
  indexed : t.Indexed primaryKey?
  values : t.values = rows

def Table.Becomes (primaryKey? : Option String) (result : Except StoreError Table) :
    Except StoreError (List Values) → Prop
  | .ok rows => ∃ t, result = .ok t ∧ t.Holds primaryKey? rows
  | .error e => result = .error e

/-- What an operation answers and makes of a table, where that is what it does to a list. -/
def Table.Agrees {α : Type} (primaryKey? : Option String) (result : Except StoreError (α × Table)) :
    Except StoreError (α × List Values) → Prop
  | .ok (a, rows) => ∃ t, result = .ok (a, t) ∧ t.Holds primaryKey? rows
  | .error e => result = .error e

theorem Table.Becomes.agrees {α : Type} {primaryKey? : Option String}
    {result : Except StoreError Table} {expected : Except StoreError (List Values)}
    (h : Becomes primaryKey? result expected) (a : α) :
    Agrees primaryKey? (do return (a, ← result)) (do return (a, ← expected)) := by
  cases expected with
  | error e =>
    have hresult : result = .error e := h
    rw [hresult]
    rfl
  | ok rows =>
    obtain ⟨t, hresult, hholds⟩ := h
    rw [hresult]
    exact ⟨t, rfl, hholds⟩

namespace Table.Holds

variable {m : Model} {t : Table} {rows : List Values} {object r : Record} {i : Identity}
  {values wanted row old : Values} {k n : Nat}

/-- The index has a key just where a row has it. -/
theorem isSome_lookup_keys {field : String} (h : t.Holds (some field) rows) (key : String) :
    (t.keys.lookup key).isSome = rows.any fun old => keyText old field == key := by
  rw [h.indexed.1, lookup_map_keyText, Option.isSome_map, List.isSome_find?, ← h.values,
    Table.values, List.any_map]
  rfl

/-- Inserting a row appends it to the list, or fails for the key that the list has already. -/
theorem insert (h : t.Holds m.primaryKey? rows) (row : Values) :
    Becomes m.primaryKey? (t.insert m.typeName m.primaryKey? row)
      (ListStore.insert m row rows) := by
  have hok {t' : Table} (ht' : t.insert m.typeName m.primaryKey? row = .ok t') :
      t'.Holds m.primaryKey? (rows ++ [row]) := by
    refine ⟨h.ordered.insert ht', h.indexed.insert ht', ?_⟩
    rw [Table.values, (insert_eq_ok ht').1, List.map_append, ← h.values]
    rfl
  unfold ListStore.insert
  cases hkey : m.primaryKey? with
  | none =>
    rw [hkey] at hok
    exact ⟨_, rfl, hok rfl⟩
  | some field =>
    rw [hkey] at h hok
    have hlookup := h.isSome_lookup_keys (keyText row field)
    simp only [Table.insert, hlookup] at hok ⊢
    by_cases htaken : (rows.any fun old => keyText old field == keyText row field) = true
    · simp only [if_pos htaken]
      rfl
    · simp only [if_neg htaken] at hok ⊢
      exact ⟨_, rfl, hok rfl⟩

/-- A record is found in a table where its first counterpart in the list is. -/
theorem find (h : t.Holds m.primaryKey? rows) (hobject : m.identity object = .ok i)
    (hwanted : object.toValues = .ok wanted) :
    match ListStore.find m wanted rows with
    | .ok (k, old) => ∃ n, t.find m i = .ok n ∧ t.rows[k]? = some (n, old)
    | .error e => t.find m i = .error e := by
  obtain ⟨wanted', hwanted', hselects⟩ := Model.selects_identity hobject
  obtain rfl : wanted = wanted' := Except.ok.inj (hwanted.symm.trans hwanted')
  have hlocate := h.indexed.locate_eq i
  rw [position?, hselects, h.values] at hlocate
  unfold ListStore.find Table.find
  rw [hlocate]
  cases hk : rows.findIdx? (m.isCounterpart wanted) with
  | none => rfl
  | some k =>
    have hlt : k < t.rows.length := by
      have hlt := (List.findIdx?_eq_some_iff_getElem.mp hk).1
      rwa [← h.values, Table.values, List.length_map] at hlt
    have hrow : t.rows[k]? = some t.rows[k] := List.getElem?_eq_getElem hlt
    have hvalues : rows[k]? = some t.rows[k].2 := by
      rw [← h.values, Table.values, List.getElem?_map, hrow]
      rfl
    simp only [Option.bind_some, hrow, Option.map_some, hvalues, Option.getD_some]
    exact ⟨_, rfl, rfl⟩

/-- Replacing a row replaces it in the list, in its place. -/
theorem replace (h : t.Holds m.primaryKey? rows) (hk : t.rows[k]? = some (n, old)) (row : Values) :
    Becomes m.primaryKey? (t.replace m.typeName m.primaryKey? n row)
      (ListStore.replace m k old row rows) := by
  have hold := h.ordered.row_of_getElem hk
  have hset : Table.replaceRow n row t.rows = t.rows.set k (n, row) :=
    replaceRow_eq_set h.ordered.ids_nodup hk
  have hok (hkey : ∀ field, m.primaryKey? = some field → keyText old field = keyText row field) :
      Table.Holds { t with rows := t.rows.set k (n, row) } m.primaryKey? (rows.set k row) := by
    refine ⟨h.ordered.set hk, h.indexed.set hk hkey, ?_⟩
    rw [Table.values, List.map_set, ← h.values]
    rfl
  unfold ListStore.replace
  simp only [Table.replace, hold, hset]
  cases hkey : m.primaryKey? with
  | none =>
    rw [hkey] at hok
    exact ⟨_, rfl, hok nofun⟩
  | some field =>
    rw [hkey] at hok
    simp only
    by_cases hsame : keyText old field = keyText row field
    · simp only [if_pos hsame]
      refine ⟨_, rfl, hok fun f hf => ?_⟩
      cases hf
      exact hsame
    · simp only [if_neg hsame]
      rfl

theorem remove (h : t.Holds m.primaryKey? rows) (hk : t.rows[k]? = some (n, old)) :
    (t.remove m.primaryKey? n).Holds m.primaryKey? (rows.eraseIdx k) := by
  refine ⟨h.ordered.remove, h.indexed.remove h.ordered, ?_⟩
  rw [h.indexed.remove_eq h.ordered hk, Table.values, ← List.eraseIdx_map, ← h.values]
  rfl

end Table.Holds

theorem Table.records_eq_list (t : Table) (m : Model) :
    t.records m = ListStore.list m t.values := by
  rw [Table.records, ListStore.list, Table.values, List.mapM_map]
  rfl

namespace Access

variable {m : Model} {t : Table} {rows : List Values} {object r : Record} {i : Identity}
  {stored wanted : Values}

theorem create_agrees (h : t.Holds m.primaryKey? rows) (values : Values) :
    Table.Agrees m.primaryKey? ((Access.create m values).attempt t)
      (ListStore.create m values rows) := by
  simp only [attempt, ListStore.create]
  cases m.fromValues values with
  | error e => rfl
  | ok r =>
    simp only [ok_bind]
    cases r.toValues with
    | error e => rfl
    | ok row => exact (h.insert row).agrees r

theorem add_agrees (h : t.Holds m.primaryKey? rows) (hstored : r.toValues = .ok stored) :
    Table.Agrees m.primaryKey? ((Access.add m r).attempt t) (ListStore.add m stored rows) := by
  simp only [attempt, ListStore.add, hstored]
  exact (h.insert stored).agrees ()

/-- A reference resolves to the first counterpart in the list. -/
theorem resolve_agrees (h : t.Holds m.primaryKey? rows) (hobject : m.identity object = .ok i)
    (hwanted : object.toValues = .ok wanted) :
    Table.Agrees m.primaryKey? ((Access.resolve m i).attempt t)
      (ListStore.resolve m wanted rows) := by
  have hfind := h.find hobject hwanted
  simp only [attempt, ListStore.resolve]
  cases hk : ListStore.find m wanted rows with
  | error e =>
    rw [hk] at hfind
    rw [hfind]
    rfl
  | ok found =>
    obtain ⟨k, old⟩ := found
    rw [hk] at hfind
    obtain ⟨n, hn, hrow⟩ := hfind
    have hread : t.read m n = m.fromValues old := by
      simp only [Table.read, h.ordered.row_of_getElem hrow]
    simp only [hn, ok_bind, hread]
    cases m.fromValues old with
    | error e => rfl
    | ok r => exact ⟨t, rfl, h⟩

theorem objects_agrees (h : t.Holds m.primaryKey? rows) :
    Table.Agrees m.primaryKey? ((Access.objects m).attempt t)
      ((ListStore.list m rows).map fun records => (records, rows)) := by
  simp only [attempt, Table.records_eq_list, h.values]
  cases ListStore.list m rows with
  | error e => rfl
  | ok records => exact ⟨t, rfl, h⟩

/-- An update of a table does to its list what is done to a plain list. -/
theorem update_agrees (h : t.Holds m.primaryKey? rows) (hobject : m.identity object = .ok i)
    (hwanted : object.toValues = .ok wanted) (changes : List (String × Data)) :
    Table.Agrees m.primaryKey? ((Access.modify m i (·.setAll changes)).attempt t)
      (ListStore.update m wanted changes rows) := by
  have hfind := h.find hobject hwanted
  simp only [attempt, ListStore.update]
  cases hk : ListStore.find m wanted rows with
  | error e =>
    rw [hk] at hfind
    rw [hfind]
    rfl
  | ok found =>
    obtain ⟨k, old⟩ := found
    rw [hk] at hfind
    obtain ⟨n, hn, hrow⟩ := hfind
    have hread : t.read m n = m.fromValues old := by
      simp only [Table.read, h.ordered.row_of_getElem hrow]
    simp only [hn, ok_bind, hread]
    cases m.fromValues old with
    | error e => rfl
    | ok r =>
      simp only [ok_bind]
      cases (r.setAll changes).toValues with
      | error e => rfl
      | ok row => exact (h.replace hrow row).agrees (r.setAll changes)

/-- A deletion from a table takes one element out of its list. -/
theorem delete_agrees (h : t.Holds m.primaryKey? rows) (hobject : m.identity object = .ok i)
    (hwanted : object.toValues = .ok wanted) :
    Table.Agrees m.primaryKey? ((Access.delete m i).attempt t)
      (ListStore.delete m wanted rows) := by
  have hfind := h.find hobject hwanted
  simp only [attempt, ListStore.delete]
  cases hk : ListStore.find m wanted rows with
  | error e =>
    rw [hk] at hfind
    rw [hfind]
    rfl
  | ok found =>
    obtain ⟨k, old⟩ := found
    rw [hk] at hfind
    obtain ⟨n, hn, hrow⟩ := hfind
    rw [hn]
    exact ⟨_, rfl, h.remove hrow⟩

end Access

/-- Models that have one primary key where they have one type name. -/
def OneKey (models : Model → Prop) : Prop :=
  ∀ m m', models m → models m' → m.typeName = m'.typeName → m.primaryKey? = m'.primaryKey?

/-- Tables that hold given lists, indexed for some models. -/
structure Shows (models : Model → Prop) (v : View) (lists : Lists) : Prop where
  tables : ∀ m, models m → (v m.typeName).Holds m.primaryKey? (lists m.typeName)
  values : ∀ typeName, (v typeName).values = lists typeName

/-- What becomes of the lists where one of them becomes something. -/
def Lists.after {α : Type} (lists : Lists) (typeName : String) :
    Except StoreError (α × List Values) → Lists
  | .ok (_, rows) => Function.update lists typeName rows
  | .error _ => lists

section Views

variable {models : Model → Prop} {v : View} {lists : Lists}

/-- A changed table shows its changed list, and the other lists are shown as before. -/
theorem Shows.update (hkey : OneKey models) (h : Shows models v lists) {m : Model} (hm : models m)
    {t : Table} {rows : List Values} (ht : t.Holds m.primaryKey? rows) :
    Shows models (Function.update v m.typeName t) (Function.update lists m.typeName rows) where
  tables m' hm' := by
    by_cases hname : m'.typeName = m.typeName
    · rw [hname, Function.update_self, Function.update_self, hkey m' m hm' hm hname]
      exact ht
    · rw [Function.update_of_ne hname, Function.update_of_ne hname]
      exact h.tables m' hm'
  values typeName := by
    by_cases hname : typeName = m.typeName
    · rw [hname, Function.update_self, Function.update_self]
      exact ht.values
    · rw [Function.update_of_ne hname, Function.update_of_ne hname]
      exact h.values typeName

/-- A call that does to its table what is done to a list does so to all that is seen. -/
theorem Shows.onView (hkey : OneKey models) (h : Shows models v lists) {a : Access}
    (ha : models a.model) {expected : Except StoreError (a.Reply × List Values)}
    (hagrees : Table.Agrees a.model.primaryKey? (a.attempt (v a.typeName)) expected) :
    (a.onView v).1 = expected.map Prod.fst ∧
      Shows models (a.onView v).2 (lists.after a.typeName expected) := by
  unfold Access.onView
  cases expected with
  | error e =>
    have hattempt : a.attempt (v a.typeName) = .error e := hagrees
    rw [hattempt]
    exact ⟨rfl, h⟩
  | ok result =>
    obtain ⟨reply, rows⟩ := result
    obtain ⟨t, hattempt, hholds⟩ := hagrees
    rw [hattempt]
    exact ⟨rfl, h.update hkey ha hholds⟩

end Views

/-- A store whose tables hold given lists, indexed for some models. -/
abbrev Store.Holds (models : Model → Prop) (s : Store) (lists : Lists) : Prop :=
  Shows models s.tables.table lists

namespace Store

variable {models : Model → Prop} {s : Store} {lists : Lists}

theorem holds_empty (models : Model → Prop) (identifier : String) :
    Holds models { identifier := identifier } fun _ => [] :=
  ⟨fun _ _ => ⟨Table.ordered_empty, Table.indexed_empty, rfl⟩, fun _ => rfl⟩

theorem Holds.objects_eq (h : s.Holds models lists) (m : Model) :
    s.objects m = ListStore.list m (lists m.typeName) := by
  rw [← h.values, objects, Table.records_eq_list]

/-- What a transaction answers and makes of a store, where that is what is done to one list. -/
def Commits {α : Type} (models : Model → Prop) (s : Store) (lists : Lists) (typeName : String)
    (result : Except StoreError α × Store) : Except StoreError (α × List Values) → Prop
  | .ok (a, rows) => ∃ s', result = (.ok a, s') ∧ s'.identifier = s.identifier ∧
      s'.Holds models (Function.update lists typeName rows)
  | .error e => result = (.error e, s)

/-- A call that does to its table what is done to a list does so to the store. -/
theorem Holds.transact (hkey : OneKey models) (h : s.Holds models lists) {a : Access}
    (ha : models a.model) {expected : Except StoreError (a.Reply × List Values)}
    (hagrees : Table.Agrees a.model.primaryKey? (a.attempt (s.tables.table a.typeName)) expected) :
    Commits models s lists a.typeName (s.transact a.perform) expected := by
  cases expected with
  | error e => exact transact_of_error hagrees
  | ok result =>
    obtain ⟨reply, rows⟩ := result
    obtain ⟨table, hattempt, hholds⟩ := hagrees
    obtain ⟨s', hrun, htables⟩ := transact_of_ok hattempt
    have hidentifier := s.identifier_transact a.perform
    rw [hrun] at hidentifier
    refine ⟨s', hrun, hidentifier, ?_⟩
    show Shows models _ _
    rw [htables]
    exact Shows.update hkey h ha hholds

end Store

end RecordStore
