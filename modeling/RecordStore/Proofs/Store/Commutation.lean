import RecordStore.Proofs.Store.Batch
import RecordStore.Proofs.Store.PrimaryKey

/-!
Writes to different keys. An operation on the counterpart of a record with a primary key looks at
the row under the text of that key and at no other, and puts other values with the same key in its
place or takes it out. Two such operations with different keys are therefore answered in one way and
leave the same tables in either order, whatever they do and whether they fail.
-/
namespace RecordStore

open Table (keyText)

/-- An update or a deletion of the stored counterpart of a record. -/
inductive Access.WritesTo (m : Model) (object : Record) : Access → Prop
  | modify {i : Identity} (hi : m.identity object = .ok i) (change : Record → Record) :
      WritesTo m object (.modify m i change)
  | delete {i : Identity} (hi : m.identity object = .ok i) : WritesTo m object (.delete m i)

def Access.onTable (a : Access) (t : Table) : Except StoreError a.Reply × Table :=
  match a.attempt t with
  | .ok (reply, t') => (.ok reply, t')
  | .error e => (.error e, t)

/-- Two operations, each in a write through its own handle, that are answered alike in either order
and leave the same tables and so the same records. -/
structure Store.Commute (s : Store) (c c' : Configuration) (a b : Access) : Prop where
  first : ((s.write c' b.perform).2.write c a.perform).1 = (s.write c a.perform).1
  second : ((s.write c a.perform).2.write c' b.perform).1 = (s.write c' b.perform).1
  tables : ((s.write c a.perform).2.write c' b.perform).2.tables.table =
    ((s.write c' b.perform).2.write c a.perform).2.tables.table
  objects : ∀ m, ((s.write c a.perform).2.write c' b.perform).2.objects m =
    ((s.write c' b.perform).2.write c a.perform).2.objects m

namespace Table

/-- What becomes of a row: other values take its place, or none. -/
structure Edit where
  row : Nat
  values? : Option Values

def rowAt? (t : Table) (field key : String) : Option (Nat × Values) :=
  t.rows.find? fun r => keyText r.2 field == key

def edited (t : Table) (key : String) : Option Edit → Table
  | none => t
  | some e =>
    { t with
      rows := t.rows.filterMap fun r => if r.1 = e.row then e.values?.map (e.row, ·) else some r
      keys := if e.values?.isSome then t.keys else t.keys.filter (·.1 != key) }

/-- A table that is found by a key field. -/
structure ByKey (field : String) (t : Table) : Prop where
  ordered : t.Ordered
  indexed : t.Indexed (some field)

/-- Edits of the row that is there under a key, if any. They keep its key. -/
def EditsAt (field key : String) (t : Table) (edit : Option Edit) : Prop :=
  ∀ e, edit = some e → ∃ old, t.rowAt? field key = some (e.row, old) ∧
    ∀ new, e.values? = some new → keyText new field = key

variable {t : Table} {field p q : String} {n : Nat} {old new : Values} {e e' : Edit}

theorem rowAt_eq_some (h : t.rowAt? field p = some (n, old)) :
    (n, old) ∈ t.rows ∧ keyText old field = p :=
  ⟨List.mem_of_find?_eq_some h, by simpa using List.find?_some h⟩

/-- The row of a key is what its text leads to in the index. -/
theorem Indexed.locate_primaryKey (h : t.Indexed (some field)) (v : Json) :
    t.locate (.primaryKey v) = (t.rowAt? field v.compact).map Prod.fst := by
  rw [locate, h.1, lookup_map_keyText, rowAt?]

/-- An edit of the row under one key leaves what is under another. -/
theorem Ordered.rowAt_edited (ht : t.Ordered) (hne : p ≠ q)
    (h : t.rowAt? field p = some (e.row, old))
    (hnew : ∀ new, e.values? = some new → keyText new field = p) :
    (t.edited p (some e)).rowAt? field q = t.rowAt? field q := by
  obtain ⟨hmem, hold⟩ := rowAt_eq_some h
  -- the row that is edited has the one key before and after, so it is not the other's
  have hrow : ∀ r ∈ t.rows, r.1 = e.row → keyText r.2 field = p := by
    intro r hr hid
    have hsame := List.inj_on_of_nodup_map ht.ids_nodup hr hmem hid
    rw [hsame, hold]
  unfold rowAt? edited
  generalize t.rows = rows at hrow
  induction rows with
  | nil => rfl
  | cons r rest ih =>
    obtain ⟨hr, hrest⟩ := List.forall_mem_cons.mp hrow
    by_cases hid : r.1 = e.row
    · have hskip : (keyText r.2 field == q) = false := beq_false_of_ne (hr hid ▸ hne)
      cases hvalues : e.values? with
      | none => simpa [hid, hvalues, hskip] using ih hrest
      | some new =>
        have hskip' : (keyText new field == q) = false := beq_false_of_ne (hnew new hvalues ▸ hne)
        simpa [hid, hvalues, hskip, hskip'] using ih hrest
    · by_cases hq : keyText r.2 field = q
      · simp [hid, hq]
      · simpa [hid, hq] using ih hrest

/-- Edits of different rows can be made in either order. -/
theorem edited_comm_of_ne (hne : e.row ≠ e'.row) :
    (t.edited p (some e)).edited q (some e') = (t.edited q (some e')).edited p (some e) := by
  have hrows (r : Nat × Values) :
      ((if r.1 = e.row then e.values?.map (e.row, ·) else some r).bind fun r =>
        if r.1 = e'.row then e'.values?.map (e'.row, ·) else some r) =
      (if r.1 = e'.row then e'.values?.map (e'.row, ·) else some r).bind fun r =>
        if r.1 = e.row then e.values?.map (e.row, ·) else some r := by
    by_cases hid : r.1 = e.row
    · cases hvalues : e.values? <;> simp [hid, hne]
    · by_cases hid' : r.1 = e'.row
      · cases hvalues : e'.values? <;> simp [hid', Ne.symm hne]
      · simp [hid, hid']
  have hkeys : (if e'.values?.isSome then (if e.values?.isSome then t.keys
        else t.keys.filter (·.1 != p)) else
        (if e.values?.isSome then t.keys else t.keys.filter (·.1 != p)).filter (·.1 != q)) =
      if e.values?.isSome then (if e'.values?.isSome then t.keys
        else t.keys.filter (·.1 != q)) else
        (if e'.values?.isSome then t.keys else t.keys.filter (·.1 != q)).filter (·.1 != p) := by
    cases e.values? <;> cases e'.values? <;> simp [Bool.and_comm]
  simp only [edited, List.filterMap_filterMap, hrows, hkeys]

theorem replaceRow_eq_filterMap {rows : List (Nat × Values)} (hids : (rows.map Prod.fst).Nodup) :
    replaceRow n new rows = rows.filterMap fun r => if r.1 = n then some (n, new) else some r := by
  induction rows with
  | nil => rfl
  | cons r rest ih =>
    obtain ⟨hnot, hrest⟩ := List.nodup_cons.mp hids
    obtain ⟨id, values⟩ := r
    by_cases hid : id = n
    · subst hid
      have hskip : ∀ r ∈ rest, (if r.1 = id then some (id, new) else some r) = some r :=
        fun r hr => if_neg fun h => hnot (List.mem_map.mpr ⟨r, hr, h⟩)
      simp [replaceRow, List.filterMap_congr hskip]
    · simp [replaceRow, hid, ih hrest]

/-- Replacing a row with another of its key is an edit of it. -/
theorem Ordered.replace_eq (ht : t.Ordered) (h : t.rowAt? field p = some (n, old))
    (typeName : String) : t.replace typeName (some field) n new =
      if p = keyText new field then .ok (t.edited p (some ⟨n, some new⟩))
      else .error (.primaryKeyChanged typeName p (keyText new field)) := by
  obtain ⟨hmem, rfl⟩ := rowAt_eq_some h
  simp only [Table.replace, ht.row_eq_some_iff.mpr hmem, replaceRow_eq_filterMap ht.ids_nodup]
  rfl

/-- Removing the row under a key is an edit of it. -/
theorem Ordered.remove_eq (ht : t.Ordered) (h : t.rowAt? field p = some (n, old)) :
    t.remove (some field) n = t.edited p (some ⟨n, none⟩) := by
  obtain ⟨hmem, rfl⟩ := rowAt_eq_some h
  have hrows : t.rows.filter (·.1 != n) =
      t.rows.filterMap fun r => if r.1 = n then none else some r := by
    rw [← List.filterMap_eq_filter]
    refine List.filterMap_congr fun r _ => ?_
    by_cases hid : r.1 = n <;> simp [hid, Option.guard]
  simp only [Table.remove, ht.row_eq_some_iff.mpr hmem, hrows]
  rfl

/-- A table with an edit of a row is found by the key field as before. -/
theorem ByKey.edited (h : t.ByKey field) {edit : Option Edit} (hedit : EditsAt field p t edit) :
    (t.edited p edit).ByKey field := by
  cases edit with
  | none => exact h
  | some e =>
    obtain ⟨n, values?⟩ := e
    obtain ⟨old, hold, hnew⟩ := hedit _ rfl
    cases values? with
    | none =>
      rw [← h.ordered.remove_eq hold]
      exact ⟨h.ordered.remove, h.indexed.remove h.ordered⟩
    | some new =>
      have hreplace : t.replace "" (some field) n new = .ok (t.edited p (some ⟨n, some new⟩)) := by
        rw [h.ordered.replace_eq hold, if_pos (hnew new rfl).symm]
      obtain ⟨k, before, hk, hset, hkey⟩ := h.ordered.replace_eq_ok hreplace
      refine ⟨h.ordered.replace hreplace, ?_⟩
      rw [hset]
      exact h.indexed.set hk hkey

/-- Edits of the rows under different keys can be made in either order. -/
theorem ByKey.edited_comm (h : t.ByKey field) (hne : p ≠ q) {edit edit' : Option Edit}
    (hedit : EditsAt field p t edit) (hedit' : EditsAt field q t edit') :
    (t.edited p edit).edited q edit' = (t.edited q edit').edited p edit := by
  cases edit with
  | none => rfl
  | some e =>
    cases edit' with
    | none => rfl
    | some e' =>
      obtain ⟨old, hold, -⟩ := hedit e rfl
      obtain ⟨old', hold', -⟩ := hedit' e' rfl
      obtain ⟨hmem, htext⟩ := rowAt_eq_some hold
      obtain ⟨hmem', htext'⟩ := rowAt_eq_some hold'
      refine edited_comm_of_ne fun hrows => hne ?_
      have hsame := List.inj_on_of_nodup_map h.ordered.ids_nodup hmem hmem' hrows
      rw [← htext, ← htext', (Prod.mk.inj hsame).2]

theorem ByKey.rowAt_edited (h : t.ByKey field) (hne : p ≠ q) {edit : Option Edit}
    (hedit : EditsAt field p t edit) : (t.edited p edit).rowAt? field q = t.rowAt? field q := by
  cases edit with
  | none => rfl
  | some e =>
    obtain ⟨old, hold, hnew⟩ := hedit e rfl
    exact h.ordered.rowAt_edited hne hold hnew

end Table

def Model.changeRow (m : Model) (field key : String) (change : Record → Record) (old : Values) :
    Except StoreError (Record × Values) := do
  let r ← m.fromValues old
  let row ← (change r).toValues
  if key = keyText row field then return (change r, row)
  else .error (.primaryKeyChanged m.typeName key (keyText row field))

/-- An operation that looks at no row but the one under a key: where it is the same in two tables,
the operation is answered alike and makes the same edit of it, or none. -/
def Access.ActsAt (a : Access) (field key : String) : Prop :=
  ∀ t t' : Table, t.ByKey field → t'.ByKey field → t'.rowAt? field key = t.rowAt? field key →
    ∃ edit, Table.EditsAt field key t edit ∧ (a.onTable t').1 = (a.onTable t).1 ∧
      (a.onTable t).2 = t.edited key edit ∧ (a.onTable t').2 = t'.edited key edit

namespace Access

variable {m : Model} {object : Record} {wanted : Values} {i : Identity} {field p q : String}
  {a b : Access} {t : Table}

/-- A record is found under the text of its primary key. -/
theorem find_of_identity (hkey : m.primaryKey? = some field) (hi : m.identity object = .ok i)
    (hwanted : object.toValues = .ok wanted) (ht : t.ByKey field) :
    t.find m i = match t.rowAt? field (keyText wanted field) with
      | some (n, _) => .ok n
      | none => .error (.objectNotFound m.typeName) := by
  simp only [Model.identity, hwanted, hkey] at hi
  obtain rfl := Except.ok.inj hi
  rw [Table.find, ht.indexed.locate_primaryKey]
  unfold keyText
  cases t.rowAt? field ((wanted.get? field).getD .null).compact <;> rfl

/-- A modification by key changes the one row that is found under the key, if there is one. -/
theorem onTable_modify (hkey : m.primaryKey? = some field) (hi : m.identity object = .ok i)
    (hwanted : object.toValues = .ok wanted) (ht : t.ByKey field) (change : Record → Record) :
    (Access.modify m i change).onTable t =
      match t.rowAt? field (keyText wanted field) with
      | none => (.error (.objectNotFound m.typeName), t)
      | some (n, old) =>
        match m.changeRow field (keyText wanted field) change old with
        | .error e => (.error e, t)
        | .ok (r, row) => (.ok r, t.edited (keyText wanted field) (some ⟨n, some row⟩)) := by
  have hfind := find_of_identity hkey hi hwanted ht
  simp only [onTable, attempt, hfind]
  cases hrow : t.rowAt? field (keyText wanted field) with
  | none => rfl
  | some found =>
    obtain ⟨n, old⟩ := found
    have hold := ht.ordered.row_eq_some_iff.mpr (Table.rowAt_eq_some hrow).1
    simp only [ok_bind, Table.read, hold, hkey, ht.ordered.replace_eq hrow, Model.changeRow]
    cases m.fromValues old with
    | error e => rfl
    | ok r =>
      simp only [ok_bind]
      cases (change r).toValues with
      | error e => rfl
      | ok row =>
        simp only [ok_bind]
        by_cases hsame : keyText wanted field = keyText row field
        · simp only [if_pos hsame]
          rfl
        · simp only [if_neg hsame]
          rfl

/-- A deletion by key takes away the one row that is found under the key, if there is one. -/
theorem onTable_delete (hkey : m.primaryKey? = some field) (hi : m.identity object = .ok i)
    (hwanted : object.toValues = .ok wanted) (ht : t.ByKey field) :
    (Access.delete m i).onTable t =
      match t.rowAt? field (keyText wanted field) with
      | none => (.error (.objectNotFound m.typeName), t)
      | some (n, _) => (.ok (), t.edited (keyText wanted field) (some ⟨n, none⟩)) := by
  have hfind := find_of_identity hkey hi hwanted ht
  simp only [onTable, attempt, hfind]
  cases hrow : t.rowAt? field (keyText wanted field) with
  | none => rfl
  | some found =>
    simp only [hkey, ok_bind, ht.ordered.remove_eq hrow]
    rfl

theorem keyText_of_changeRow {key : String} {change : Record → Record} {old row : Values}
    {r : Record} (h : m.changeRow field key change old = .ok (r, row)) :
    keyText row field = key := by
  obtain ⟨r', -, h⟩ := Data.bind_eq_ok.mp h
  obtain ⟨row', -, h⟩ := Data.bind_eq_ok.mp h
  by_cases hsame : key = keyText row' field
  · rw [if_pos hsame] at h
    cases h
    exact hsame.symm
  · rw [if_neg hsame] at h
    cases h

/-- An update or a deletion of the counterpart of a record looks at the row of its key. -/
theorem WritesTo.actsAt (h : a.WritesTo m object) (hkey : m.primaryKey? = some field)
    (hwanted : object.toValues = .ok wanted) : a.ActsAt field (keyText wanted field) := by
  intro t t' ht ht' hrow
  cases h with
  | modify hi change =>
    rw [onTable_modify hkey hi hwanted ht, onTable_modify hkey hi hwanted ht', hrow]
    cases hfound : t.rowAt? field (keyText wanted field) with
    | none => exact ⟨none, nofun, rfl, rfl, rfl⟩
    | some found =>
      obtain ⟨n, old⟩ := found
      simp only
      cases hchange : m.changeRow field (keyText wanted field) change old with
      | error e => exact ⟨none, nofun, rfl, rfl, rfl⟩
      | ok result =>
        refine ⟨some ⟨n, some result.2⟩, fun e he => ?_, rfl, rfl, rfl⟩
        cases he
        refine ⟨old, hfound, fun new hnew => ?_⟩
        cases hnew
        exact keyText_of_changeRow hchange
  | delete hi =>
    rw [onTable_delete hkey hi hwanted ht, onTable_delete hkey hi hwanted ht', hrow]
    cases hfound : t.rowAt? field (keyText wanted field) with
    | none => exact ⟨none, nofun, rfl, rfl, rfl⟩
    | some found =>
      refine ⟨some ⟨found.1, none⟩, fun e he => ?_, rfl, rfl, rfl⟩
      cases he
      exact ⟨found.2, hfound, nofun⟩

/-- Operations on the rows of different keys can be done in either order. -/
theorem ActsAt.comm (ha : a.ActsAt field p) (hb : b.ActsAt field q) (hne : p ≠ q)
    (ht : t.ByKey field) :
    (a.onTable (b.onTable t).2).1 = (a.onTable t).1 ∧
      (b.onTable (a.onTable t).2).1 = (b.onTable t).1 ∧
      (b.onTable (a.onTable t).2).2 = (a.onTable (b.onTable t).2).2 := by
  have hafter {c : Access} {r s : String} (hc : c.ActsAt field r) (hne : r ≠ s) :
      (c.onTable t).2.ByKey field ∧ (c.onTable t).2.rowAt? field s = t.rowAt? field s := by
    obtain ⟨edit, hedit, -, htable, -⟩ := hc t t ht ht rfl
    rw [htable]
    exact ⟨ht.edited hedit, ht.rowAt_edited hne hedit⟩
  obtain ⟨hat, harow⟩ := hafter ha hne
  obtain ⟨hbt, hbrow⟩ := hafter hb hne.symm
  obtain ⟨edit, hedit, hanswer, htable, hlater⟩ := ha t _ ht hbt hbrow
  obtain ⟨edit', hedit', hanswer', htable', hlater'⟩ := hb t _ ht hat harow
  refine ⟨hanswer, hanswer', ?_⟩
  rw [hlater, hlater', htable, htable']
  exact ht.edited_comm hne hedit hedit'

theorem onView_eq (a : Access) (v : View) : a.onView v =
    ((a.onTable (v a.typeName)).1, Function.update v a.typeName (a.onTable (v a.typeName)).2) := by
  unfold onView onTable
  cases a.attempt (v a.typeName) with
  | ok result => rfl
  | error e => rw [Function.update_eq_self]

end Access

namespace Store

variable {m : Model} {field p q : String} {a b : Access}

/-- What a write of one operation does to the one table that it works on. -/
theorem write_onTable (s : Store) {c : Configuration} (hc : c.readOnly = false) {a : Access}
    {name : String} (hname : a.typeName = name) :
    (s.write c a.perform).1 = (a.onTable (s.tables.table name)).1 ∧
      (s.write c a.perform).2.tables.table =
        Function.update s.tables.table name (a.onTable (s.tables.table name)).2 := by
  have h := s.write_perform hc a
  rwa [a.onView_eq, hname] at h

/-- Operations on the rows of different keys of one table commute. A handle that is read-only is
refused in either order. -/
theorem commute_of_actsAt (s : Store) {name : String} (ht : (s.tables.table name).ByKey field)
    (ha : a.ActsAt field p) (hb : b.ActsAt field q) (hne : p ≠ q) (haname : a.typeName = name)
    (hbname : b.typeName = name) (c c' : Configuration) : s.Commute c c' a b := by
  suffices h : ((s.write c' b.perform).2.write c a.perform).1 = (s.write c a.perform).1 ∧
      ((s.write c a.perform).2.write c' b.perform).1 = (s.write c' b.perform).1 ∧
      ((s.write c a.perform).2.write c' b.perform).2.tables.table =
        ((s.write c' b.perform).2.write c a.perform).2.tables.table from
    ⟨h.1, h.2.1, h.2.2, fun m => by rw [objects, objects, h.2.2]⟩
  cases hc : c.readOnly with
  | true => simp only [write_of_readOnly _ hc, identifier_write, and_self]
  | false =>
    cases hc' : c'.readOnly with
    | true => simp only [write_of_readOnly _ hc', identifier_write, and_self]
    | false =>
      obtain ⟨hanswer, htables⟩ := s.write_onTable hc haname
      obtain ⟨hanswer', htables'⟩ := s.write_onTable hc' hbname
      obtain ⟨hlater, hend⟩ := (s.write c' b.perform).2.write_onTable hc haname
      obtain ⟨hlater', hend'⟩ := (s.write c a.perform).2.write_onTable hc' hbname
      obtain ⟨hfirst, hsecond, htable⟩ := ha.comm hb hne ht
      rw [htables', Function.update_self] at hlater hend
      rw [htables, Function.update_self] at hlater' hend'
      rw [hlater, hlater', hend, hend', hanswer, hanswer', Function.update_idem,
        Function.update_idem, htable]
      exact ⟨hfirst, hsecond, rfl⟩

/-- Updates and deletions through a model with a primary key, of records with different keys, have
the same answers and effects in either order, in any store to which only models with its primary key
have written what has its type name. -/
theorem keyed_writes_commute {m : Model} {field : String} (hkey : m.primaryKey? = some field)
    (identifier : String) {events : List Event} (hevents : ∀ e ∈ events, e.Typed m.SharesIndex)
    {x y : Record} {row row' : Values} (hx : x.toValues = .ok row) (hy : y.toValues = .ok row')
    (hne : keyText row field ≠ keyText row' field) {a b : Access} (ha : a.WritesTo m x)
    (hb : b.WritesTo m y) (c c' : Configuration) :
    (after { identifier := identifier } events).Commute c c' a b := by
  have hs := after_sound (fun _ h => h.1) hevents (sound_empty _ identifier)
  have hi := indexed_after identifier hevents
  rw [hkey] at hi
  have ha' : a.typeName = m.typeName := by cases ha <;> rfl
  have hb' : b.typeName = m.typeName := by cases hb <;> rfl
  exact commute_of_actsAt _ ⟨(hs m.typeName).ordered, hi⟩ (ha.actsAt hkey hx) (hb.actsAt hkey hy)
    hne ha' hb' c c'

def accountsHistory : List Event := [
  .write (.volatile "db") (.call (.create .account
      [("id", .string "x"), ("owner", .string "o"), ("balance", .integer 1)]) fun _ => .call
    (.create .account [("id", .string "y"), ("owner", .string "o"), ("balance", .integer 2)])
    fun _ => .finish (.ok ()))]

theorem typed_accountsHistory : ∀ e ∈ accountsHistory, e.Typed Model.account.SharesIndex := by
  have hself : Model.account.SharesIndex .account := ⟨Model.sound_account, fun _ => rfl⟩
  intro e he
  obtain rfl := List.mem_singleton.mp he
  exact ⟨⟨hself, by decide, trivial, trivial, rfl, trivial⟩, fun _ _ =>
    ⟨⟨hself, by decide, trivial, trivial, rfl, trivial⟩, fun _ _ => trivial⟩⟩

/-- Giving one account the key of another is refused before and after the other is deleted. -/
theorem keyed_writes_commute_accounts :
    (after { identifier := "db" } accountsHistory).Commute (.volatile "db") (.volatile "db")
      (.modify .account (.primaryKey (.string "x")) (·.setAll [("id", .string "y")]))
      (.delete .account (.primaryKey (.string "y"))) := by
  have hne : keyText [("id", .string "x"), ("owner", .string "o"), ("balance", .integer 1)] "id" ≠
      keyText [("id", .string "y"), ("owner", .string "o"), ("balance", .integer 2)] "id" := by
    decide
  exact keyed_writes_commute (m := .account) rfl "db" typed_accountsHistory
    (x := ⟨[("id", .string "x"), ("owner", .string "o"), ("balance", .integer 1)], []⟩)
    (y := ⟨[("id", .string "y"), ("owner", .string "o"), ("balance", .integer 2)], []⟩)
    rfl rfl hne (.modify rfl _) (.delete rfl) _ _

/-- An account and one of the newer version with the same owner, under which the second is found. -/
def crossedHistory : List Event := [
  .write (.volatile "db") (.call (.create .account
      [("id", .string "x"), ("owner", .string "o"), ("balance", .integer 1)]) fun _ => .call
    (.create .accountV2 [("id", .string "y"), ("owner", .string "o"), ("balance", .null)])
    fun _ => .finish (.ok ()))]

theorem typed_crossedHistory : ∀ e ∈ crossedHistory, e.Typed Model.Sound := by
  intro e he
  obtain rfl := List.mem_singleton.mp he
  exact ⟨⟨Model.sound_account, by decide, trivial, trivial, rfl, trivial⟩, fun _ _ =>
    ⟨⟨Model.sound_accountV2, by decide, trivial, trivial, trivial, trivial⟩,
      fun _ _ => trivial⟩⟩

def ownedAccount (owner : String) : Record :=
  ⟨[("id", .string "y"), ("owner", .string owner), ("balance", .absent)], []⟩

/-- Where another model with another key has written to the table, writes to different keys need not
commute: deleting what the index has under one owner takes the owner of its row out of the index,
which is the other key. -/
theorem not_keyed_writes_commute :
    ¬∀ (m : Model) (field : String) (events : List Event) (x y : Record) (row row' : Values)
      (a b : Access), m.Sound → m.primaryKey? = some field →
      (∀ e ∈ events, e.Typed Model.Sound) → x.toValues = .ok row → y.toValues = .ok row' →
      keyText row field ≠ keyText row' field → a.WritesTo m x → b.WritesTo m y →
      (after { identifier := "db" } events).Commute (.volatile "db") (.volatile "db") a b := by
  intro h
  have hcommute := h .accountV2 "owner" crossedHistory (ownedAccount "x") (ownedAccount "o") _ _ _ _
    Model.sound_accountV2 rfl typed_crossedHistory rfl rfl (by decide) (.delete rfl) (.delete rfl)
  have hmissing : ((((after { identifier := "db" } crossedHistory).write (.volatile "db")
      (Access.delete .accountV2 (.primaryKey (.string "x"))).perform).2.write (.volatile "db")
      (Access.delete .accountV2 (.primaryKey (.string "o"))).perform)).1 =
        .error (.objectNotFound "Account") := rfl
  have hfound : ((after { identifier := "db" } crossedHistory).write (.volatile "db")
      (Access.delete .accountV2 (.primaryKey (.string "o"))).perform).1 = .ok () := rfl
  exact nomatch hmissing.symm.trans (hcommute.second.trans hfound)

end Store

end RecordStore
