import RecordStore.Proofs.Store.Recognition

/-!
Updates of some fields. An update that succeeds replaces one row in its place: the fields given take
their new values in it, and its primary key stays. Without a primary key, or where the index has
that of the model, it is the first row that the identity selects. In a table in which the model
recognizes its rows it is one with the key that was looked for, the fields that are not given keep
their values, and an update of no field changes no row and tells no observer. An update that fails
does nothing.
-/
namespace RecordStore

open Table (keyText)

/-- What an update of some fields of the counterpart of a record makes of a table, given what the
record would be stored as: one row is replaced in its place. -/
structure Table.Updated (m : Model) (wanted : Values) (changes : List (String × Data)) (r : Record)
    (t t' : Table) (k n : Nat) (old new : Values) : Prop where
  row : t.rows[k]? = some (n, old)
  result : t' = { t with rows := t.rows.set k (n, new) }
  stored : r.toValues = .ok new
  changed : RowChanged m (changes.lookup ·) new
  key : ∀ field, m.primaryKey? = some field → keyText new field = keyText old field
  first : m.primaryKey? = none ∨ t.Indexed m.primaryKey? →
    t.values.findIdx? (m.isCounterpart wanted) = some k

/-- What is more in a table in which the model recognizes its rows: the row is a counterpart of the
record, and what is not given is kept. -/
structure Table.KeepsOthers (m : Model) (wanted : Values) (changes : List (String × Data))
    (old new : Values) : Prop where
  counterpart : m.isCounterpart wanted old = true
  kept : ∀ f ∈ m.fields, changes.lookup f.name = none → new.get? f.name = old.get? f.name
  unchanged : changes = [] → new = old

/-- What an update of the counterpart of a record makes of a store. -/
structure Store.PartialUpdate (m : Model) (wanted : Values) (changes : List (String × Data))
    (r : Record) (s s' : Store) : Prop where
  identifier : s'.identifier = s.identifier
  row : ∃ k n old new,
    Table.Updated m wanted changes r (s.tables.table m.typeName) (s'.tables.table m.typeName)
        k n old new ∧
      ((s.tables.table m.typeName).Recognizes m → Table.KeepsOthers m wanted changes old new)
  others : ∀ typeName, typeName ≠ m.typeName →
    s'.tables.table typeName = s.tables.table typeName
  quiet : (s.tables.table m.typeName).Recognizes m → changes = [] →
    s'.tables.table = s.tables.table ∧ s'.observers = s.observers

variable {models : Model → Prop} {m : Model} {object : Record} {wanted : Values} {i : Identity}
  {changes : List (String × Data)}

theorem Model.identity_of_keyless (hkey : m.primaryKey? = none)
    (hobject : m.identity object = .ok i) (hwanted : object.toValues = .ok wanted) :
    i = .snapshot wanted := by
  simp only [Model.identity, hwanted, hkey] at hobject
  exact (Except.ok.inj hobject).symm

/-- A row that the model finds and can read is a counterpart of the record that it looks for. -/
theorem Table.Recognizes.counterpart {t : Table} (h : t.Recognizes m) (ht : t.Ordered)
    (hobject : m.identity object = .ok i) (hwanted : object.toValues = .ok wanted) {n : Nat}
    {old : Values} (hn : t.locate i = some n) (hrow : (n, old) ∈ t.rows) (hread : m.CanRead old) :
    m.isCounterpart wanted old = true := by
  cases hkey : m.primaryKey? with
  | none =>
    obtain rfl := Model.identity_of_keyless hkey hobject hwanted
    obtain ⟨found, hfound, rfl⟩ := Option.map_eq_some_iff.mp hn
    have hold : found.2 = old := by
      have hfirst := ht.row_eq_some_iff.mpr (List.mem_of_find?_eq_some hfound)
      exact Option.some.inj (hfirst.symm.trans (ht.row_eq_some_iff.mpr hrow))
    have hsame : found.2.same wanted = true := by simpa using List.find?_some hfound
    simpa only [Model.isCounterpart, hkey, hold] using hsame
  | some field =>
    simp only [Model.identity, hwanted, hkey] at hobject
    obtain rfl := Except.ok.inj hobject
    have htext : keyText old field = keyText wanted field :=
      h.key field hkey _ n old hn hrow hread
    simpa only [Model.isCounterpart, hkey, beq_iff_eq] using htext

/-- An update that succeeds replaces one row, which keeps what the changes do not name. -/
theorem Access.updated_of_attempt (hmodels : ∀ m, models m → m.Sound) (hm : m.Sound)
    (hform : m.form = .fields) (hobject : m.identity object = .ok i)
    (hwanted : object.toValues = .ok wanted) (hchanges : m.Changes changes) {t t' : Table}
    (ht : t.Sound models m.typeName) {r : Record}
    (h : (Access.modify m i (·.setAll changes)).attempt t = .ok (r, t')) :
    ∃ k n old new, Table.Updated m wanted changes r t t' k n old new ∧
      (t.Recognizes m → Table.KeepsOthers m wanted changes old new) := by
  obtain ⟨n, hn, h⟩ := Data.bind_eq_ok.mp h
  obtain ⟨before, hbefore, h⟩ := Data.bind_eq_ok.mp h
  obtain ⟨new, hnew, h⟩ := Data.bind_eq_ok.mp h
  have hnew : (before.setAll changes).toValues = .ok new := hnew
  obtain ⟨t'', ht'', h⟩ := Data.bind_eq_ok.mp h
  cases h
  have hn := Table.find_eq_ok.mp hn
  obtain ⟨k, old, hrow, ht', hkey⟩ := ht.ordered.replace_eq_ok ht''
  have hread : m.fromValues old = .ok before := by
    simpa only [Table.read, ht.ordered.row_of_getElem hrow] using hbefore
  have hmem : old ∈ t.values := List.mem_map_of_mem (List.mem_of_getElem? hrow)
  obtain ⟨hadmits, -, htransient⟩ :=
    Model.admits_of_fromValues hm (ht.proper hmodels hmem) hread
  have hset := Model.setAll_changes hm hform hadmits htransient hchanges
  have hencode : Data.encodeFields (replaceFields (changes.lookup ·) before.fields) = .ok new := by
    rw [← Record.toValues_eq_ok.mp hnew, hset]
  refine ⟨k, n, old, new, ⟨hrow, ht', hnew, rowChanged_of_replaceFields hadmits hform hencode,
    fun field hfield => (hkey field hfield).symm, fun hindex => ?_⟩, fun hrecognizes => ?_⟩
  · have hplace : (∃ values, i = .snapshot values) ∨ t.Indexed m.primaryKey? :=
      hindex.imp_left fun hnone => ⟨wanted, Model.identity_of_keyless hnone hobject hwanted⟩
    obtain ⟨k', old', hk, hrow'⟩ := Table.locate_eq_some hplace hn
    obtain rfl : k = k' := ht.ordered.position_unique hrow hrow'
    obtain ⟨wanted', hwanted', hselects⟩ := Model.selects_identity hobject
    obtain rfl : wanted = wanted' := Except.ok.inj (hwanted.symm.trans hwanted')
    rwa [Table.position?, hselects] at hk
  · -- the row was stored for this model, so what is read from it is stored as the same row
    have hold := Record.toValues_eq_ok.mp
      (Model.toValues_of_fromValues hm (hrecognizes.own old hmem ⟨before, hread⟩) hread)
    refine ⟨hrecognizes.counterpart ht.ordered hobject hwanted hn (List.mem_of_getElem? hrow)
      ⟨before, hread⟩, fun f _ hnone => get_of_replaceFields hold hencode hnone, fun hnone => ?_⟩
    subst hnone
    exact Except.ok.inj ((Record.toValues_eq_ok.mp hnew).symm.trans hold)

namespace Store

/-- An update of some fields touches one row, or fails and does nothing. -/
theorem transact_update (hmodels : ∀ m, models m → m.Sound) (hm : m.Sound)
    (hform : m.form = .fields) (hobject : m.identity object = .ok i)
    (hwanted : object.toValues = .ok wanted) (hchanges : m.Changes changes) {s : Store}
    (hs : View.Sound models s.tables.table) :
    (∃ r s', s.transact (Transact.modifyRecord m i (·.setAll changes)) = (.ok r, s') ∧
      PartialUpdate m wanted changes r s s') ∨
    ∃ e, s.transact (Transact.modifyRecord m i (·.setAll changes)) = (.error e, s) := by
  have h := s.transact_perform (.modify m i (·.setAll changes))
  cases hattempt : (Access.modify m i (·.setAll changes)).attempt (s.tables.table m.typeName) with
  | error e =>
    simp only [Access.typeName, Access.model, hattempt] at h
    exact .inr ⟨e, h⟩
  | ok result =>
    obtain ⟨r, t⟩ := result
    simp only [Access.typeName, Access.model, hattempt] at h
    obtain ⟨staged, htransact, hreaches⟩ := h
    have hcommitted := committed_commit hmodels hs hreaches
    obtain ⟨k, n, old, new, hupdated, hkeeps⟩ :=
      Access.updated_of_attempt hmodels hm hform hobject hwanted hchanges (hs m.typeName) hattempt
    have htable : (s.commit staged).tables.table m.typeName = t := by
      rw [hcommitted.tables, Function.update_self]
    refine .inl ⟨r, s.commit staged, htransact, hcommitted.identifier,
      ⟨k, n, old, new, htable ▸ hupdated, hkeeps⟩, fun name hname => ?_,
      fun hrecognizes hnone => ?_⟩
    · rw [hcommitted.tables, Function.update_of_ne hname]
    · obtain rfl : new = old := (hkeeps hrecognizes).unchanged hnone
      have hsame : t = s.tables.table m.typeName := by
        rw [hupdated.result, Table.set_of_getElem hupdated.row]
      have htables : (s.commit staged).tables.table = s.tables.table := by
        rw [hcommitted.tables, hsame]
        exact Function.update_eq_self ..
      refine ⟨htables, ?_⟩
      rw [hcommitted.observers, ← hcommitted.tables, htables]
      conv_rhs => rw [← List.map_id' s.observers]
      exact List.map_congr_left fun o _ => o.told_self hmodels (hs o.model.typeName)

end Store

end RecordStore
