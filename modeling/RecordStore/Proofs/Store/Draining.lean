import RecordStore.Proofs.Field.Storable
import RecordStore.Proofs.Store.Batch
import RecordStore.Proofs.Store.PrimaryKey

/-!
Draining a table. The records that a model lists are deleted one after the other, in any order, and
each deletion finds a row: the one that its record was read from where the model has a primary key,
and else the first of those with equal values. At every point there are as many counterparts of any
values among the rows as among the records that are still to be deleted, so no row is left.
-/
namespace RecordStore

open Table (keyText)

/-- Sound models that, where they have the type name of a given one, have its key field and store
its key in the form that it would give it. Where it has no key they are the model itself. -/
def Model.SharesRows (m m' : Model) : Prop :=
  match m.primaryKey? with
  | some _ => m.SharesKey m'
  | none => m.Alongside m'

/-- The values that a record is stored as. -/
def Record.stored (r : Record) : Values := r.toValues.toOption.getD []

/-- A record that was read from a row and finds it, or one with equal values, by what it would be
stored as. -/
structure Model.Recovers (m : Model) (row : Values) (r : Record) : Prop where
  stored : r.toValues = .ok r.stored
  proper : r.stored.Proper
  counterpart : m.isCounterpart r.stored row = true
  same : m.primaryKey? = none → r.stored = row

/-- What the deletion of a record removes from a table: the first row that is its counterpart, with
its key. -/
structure Table.Removes (m : Model) (r : Record) (t t' : Table) (k n : Nat) (row : Values) :
    Prop where
  first : t.values.findIdx? (m.isCounterpart r.stored) = some k
  row : t.rows[k]? = some (n, row)
  result : t' = { t with rows := t.rows.eraseIdx k, keys := t.keys.eraseIdx k }

namespace Store

def deleteOne (c : Configuration) (m : Model) (r : Record) (s : Store) :
    Except StoreError Unit × Store :=
  match m.identity r with
  | .error e => (.error e, s)
  | .ok i => s.write c (Transact.delete m i)

/-- A deletion that succeeds, of one of the records that were listed from a table. It removes the
row from which its record was read, or where there is no key, the first row with equal values. -/
structure Deletes (c : Configuration) (m : Model) (listed : Table) (rs : List Record) (r : Record)
    (s s' : Store) : Prop where
  answer : s.deleteOne c m r = (.ok (), s')
  others : ∀ typeName, typeName ≠ m.typeName →
    s'.tables.table typeName = s.tables.table typeName
  row : ∃ k n row,
    Table.Removes m r (s.tables.table m.typeName) (s'.tables.table m.typeName) k n row ∧
    ∃ (j : Nat) (origin : Nat × Values),
      rs[j]? = some r ∧ listed.rows[j]? = some origin ∧
      (m.primaryKey? ≠ none → (n, row) = origin) ∧
      (m.primaryKey? = none → r.stored = origin.2 ∧ row.same origin.2 = true)

/-- Deletions of some records one after the other. -/
inductive Drains (c : Configuration) (m : Model) (listed : Table) (rs : List Record) :
    List Record → Store → Store → Prop
  | nil (s : Store) : Drains c m listed rs [] s s
  | cons {r : Record} {rest : List Record} {s s' s'' : Store}
      (hfirst : Deletes c m listed rs r s s') (hrest : Drains c m listed rs rest s' s'') :
      Drains c m listed rs (r :: rest) s s''

end Store

namespace Model

variable {m : Model} {v w row : Values} {r : Record}

theorem SharesRows.sound {m' : Model} (h : m.SharesRows m') : m'.Sound := by
  unfold SharesRows at h
  cases hkey : m.primaryKey? <;> rw [hkey] at h <;> exact h.1

theorem SharesRows.primaryKey {m' : Model} (h : m.SharesRows m')
    (hname : m'.typeName = m.typeName) : m'.primaryKey? = m.primaryKey? := by
  unfold SharesRows at h
  cases hkey : m.primaryKey? with
  | some field =>
    rw [hkey] at h
    exact (h.2 hname).1.trans hkey
  | none =>
    rw [hkey] at h
    rw [h.2 hname, hkey]

theorem isCounterpart_self (hv : v.Proper) : m.isCounterpart v v = true := by
  unfold isCounterpart
  cases m.primaryKey? with
  | some field => exact beq_self_eq_true _
  | none => exact Values.same_self hv

/-- A row and its counterpart are counterparts of the same values. -/
theorem isCounterpart_congr (hw : w.Proper) (hrow : row.Proper)
    (h : m.isCounterpart w row = true) (v : Values) :
    m.isCounterpart v row = m.isCounterpart v w := by
  unfold isCounterpart at h ⊢
  cases hkey : m.primaryKey? with
  | some field =>
    simp only [hkey] at h ⊢
    rw [beq_iff_eq.mp h]
  | none =>
    simp only [hkey] at h ⊢
    have hback := Values.same_symm hrow hw h
    exact Bool.eq_iff_iff.mpr ⟨Values.same_trans hback, Values.same_trans h⟩

/-- Where rows are shared, a record that is read from one finds it again. -/
theorem recovers_of_fromValues (hm : m.Sound) {m' : Model} (hshares : m.SharesRows m')
    (hname : m'.typeName = m.typeName) (hstores : m'.Stores row)
    (hr : m.fromValues row = .ok r) : m.Recovers row r := by
  unfold SharesRows at hshares
  cases hkey : m.primaryKey? with
  | none =>
    rw [hkey] at hshares
    obtain rfl := hshares.2 hname
    have hback := toValues_of_fromValues hm hstores hr
    have hstored : r.stored = row := by rw [Record.stored, hback]; rfl
    have hproper := proper_of_stores hm hstores
    refine ⟨hstored ▸ hback, hstored ▸ hproper, ?_, fun _ => hstored⟩
    rw [hstored]
    exact isCounterpart_self hproper
  | some field =>
    rw [hkey] at hshares
    obtain ⟨f, hf, rfl⟩ := primaryKey_eq_some.mp hkey
    have hproper := proper_of_stores hshares.1 hstores
    obtain ⟨values, hvalues⟩ := exists_toValues hm hproper hr
    have hstored : r.stored = values := by rw [Record.stored, hvalues]; rfl
    have hadmits := (admits_of_fromValues hm hproper hr).1
    have hwritten : m.Stores values := ⟨r, hadmits, hvalues⟩
    -- the row and what the record is stored as are read as one record, so they have one key
    have hread := key_of_fromValues hm hf hr
    have hagain := key_of_fromValues hm hf (fromValues_toValues hm hproper hr hvalues)
    have htext := keyText_eq_of_key hf ((hshares.2 hname).2 row hstores)
      (keepsKey_of_stores hm hwritten) hread (hread.trans hagain.symm)
    refine ⟨hstored ▸ hvalues, hstored ▸ proper_of_stores hm hwritten, ?_, fun hnone => ?_⟩
    · simp only [isCounterpart, hkey, hstored]
      exact beq_iff_eq.mpr htext
    · cases hkey.symm.trans hnone

end Model

theorem countP_of_forall₂ {α β : Type} {R : α → β → Prop} {p : α → Bool} {q : β → Bool}
    {as : List α} {bs : List β} (h : List.Forall₂ R as bs)
    (hpq : ∀ a ∈ as, ∀ b, R a b → p a = q b) : as.countP p = bs.countP q := by
  induction h with
  | nil => rfl
  | @cons a b as bs hhead _ ih =>
    obtain ⟨ha, has⟩ := List.forall_mem_cons.mp hpq
    rw [List.countP_cons, List.countP_cons, ih has, ha b hhead]

namespace Table

variable {m : Model} {t listed : Table} {rs rest : List Record} {r : Record}

/-- A table from which some records were listed that find their rows again. -/
structure Listed (m : Model) (t : Table) (rs : List Record) : Prop where
  ordered : t.Ordered
  indexed : t.Indexed m.primaryKey?
  proper : ∀ row ∈ t.values, row.Proper
  recovers : List.Forall₂ m.Recovers t.values rs

/-- What is left of a listed table while some of the records are still to be deleted: any values
have as many counterparts among the rows as among those records. -/
structure Remains (m : Model) (listed : Table) (rest : List Record) (t : Table) : Prop where
  ordered : t.Ordered
  indexed : t.Indexed m.primaryKey?
  rows : t.rows.Sublist listed.rows
  nextRow : t.nextRow = listed.nextRow
  count : ∀ v : Values,
    t.values.countP (m.isCounterpart v) = rest.countP fun r => m.isCounterpart v r.stored

theorem Listed.remains (h : Listed m t rs) (hperm : rest.Perm rs) : Remains m t rest t where
  ordered := h.ordered
  indexed := h.indexed
  rows := .refl _
  nextRow := rfl
  count v := by
    rw [hperm.countP_eq]
    refine countP_of_forall₂ h.recovers fun row hrow r hr => ?_
    exact Model.isCounterpart_congr hr.proper (h.proper row hrow) hr.counterpart v

/-- Every listed record is that of a row at its position. -/
theorem Listed.exists_row (h : Listed m t rs) (hr : r ∈ rs) :
    ∃ (j : Nat) (n : Nat) (row : Values), rs[j]? = some r ∧ t.rows[j]? = some (n, row) ∧
      m.Recovers row r := by
  obtain ⟨j, hj⟩ := List.getElem?_of_mem hr
  obtain ⟨hlt, hget⟩ := List.getElem?_eq_some_iff.mp hj
  have hvalues : j < t.values.length := h.recovers.length_eq ▸ hlt
  have hrows : j < t.rows.length := by rwa [values, List.length_map] at hvalues
  have hone := h.recovers.get hvalues hlt
  simp only [List.get_eq_getElem, hget, values, List.getElem_map] at hone
  exact ⟨j, _, _, hj, List.getElem?_eq_getElem hrows, hone⟩

/-- A record that is still to be deleted has a counterpart, and the first one is taken out. -/
theorem Remains.removes (hlisted : Listed m listed rs) (h : Remains m listed (r :: rest) t)
    (hr : r ∈ rs) :
    ∃ k n row, t.values.findIdx? (m.isCounterpart r.stored) = some k ∧
      t.rows[k]? = some (n, row) ∧ m.isCounterpart r.stored row = true ∧
      Remains m listed rest
        { t with rows := t.rows.eraseIdx k, keys := t.keys.eraseIdx k } := by
  obtain ⟨_, _, _, _, _, hrecovers⟩ := hlisted.exists_row hr
  have hself := Model.isCounterpart_self (m := m) hrecovers.proper
  have hpos : 0 < t.values.countP (m.isCounterpart r.stored) := by
    rw [h.count, List.countP_cons, if_pos hself]
    exact Nat.succ_pos _
  obtain ⟨row', hrow', hfound⟩ := List.countP_pos_iff.mp hpos
  obtain ⟨k, hk⟩ := Option.isSome_iff_exists.mp
    (List.findIdx?_isSome.trans (List.any_eq_true.mpr ⟨row', hrow', hfound⟩))
  obtain ⟨hlt, hcounterpart, -⟩ := List.findIdx?_eq_some_iff_getElem.mp hk
  have hrows : k < t.rows.length := by rwa [values, List.length_map] at hlt
  refine ⟨k, t.rows[k].1, t.rows[k].2, hk, List.getElem?_eq_getElem hrows, ?_, ?_⟩
  · simpa only [values, List.getElem_map] using hcounterpart
  have hproper : ∀ row ∈ t.values, row.Proper := fun row hrow =>
    hlisted.proper row ((h.rows.map Prod.snd).subset hrow)
  refine ⟨⟨h.ordered.increasing.sublist (List.eraseIdx_sublist ..), fun e he => ?_⟩,
    h.indexed.eraseIdx k, (List.eraseIdx_sublist ..).trans h.rows, h.nextRow, fun v => ?_⟩
  · exact h.ordered.below e ((List.eraseIdx_sublist ..).subset he)
  · -- the row that goes and the record that is done are counterparts of the same values
    have hsame := Model.isCounterpart_congr hrecovers.proper
      (hproper _ (List.getElem_mem hlt)) hcounterpart v
    have herased := (List.getElem_cons_eraseIdx_perm hlt).countP_eq (m.isCounterpart v)
    have hcount := h.count v
    rw [List.countP_cons] at hcount herased
    rw [hsame] at herased
    have hvalues : values { t with rows := t.rows.eraseIdx k, keys := t.keys.eraseIdx k } =
        t.values.eraseIdx k := (List.eraseIdx_map ..).symm
    rw [hvalues]
    omega

/-- Of the rows of a listed table only one is the counterpart of a record with a key. -/
theorem Listed.row_unique (h : Listed m t rs) {field : String} (hkey : m.primaryKey? = some field)
    {wanted : Values} {a b : Nat × Values} (ha : a ∈ t.rows) (hb : b ∈ t.rows)
    (hwa : m.isCounterpart wanted a.2 = true) (hwb : m.isCounterpart wanted b.2 = true) :
    a = b := by
  have hindexed := h.indexed
  rw [hkey] at hindexed
  obtain ⟨hkeys, hnodup⟩ := hindexed
  rw [hkeys, List.map_map] at hnodup
  simp only [Model.isCounterpart, hkey, beq_iff_eq] at hwa hwb
  exact List.inj_on_of_nodup_map hnodup ha hb (hwa.trans hwb.symm)

/-- Where no record is left, no row is. -/
theorem Remains.eq_empty (hlisted : Listed m listed rs) (h : Remains m listed [] t) :
    t = { nextRow := listed.nextRow } := by
  have hrows : t.rows = [] := by
    refine List.eq_nil_iff_forall_not_mem.mpr fun e he => ?_
    have hmem : e.2 ∈ t.values := List.mem_map_of_mem he
    have hproper := hlisted.proper e.2 ((h.rows.map Prod.snd).subset hmem)
    have hcount := h.count e.2
    rw [List.countP_nil, List.countP_eq_zero] at hcount
    exact hcount e.2 hmem (Model.isCounterpart_self hproper)
  have hkeys : t.keys = [] := by
    have hindexed := h.indexed
    cases hkey : m.primaryKey? with
    | none =>
      rw [hkey] at hindexed
      exact hindexed
    | some field =>
      rw [hkey] at hindexed
      rw [hindexed.1, hrows]
      rfl
  have hnext := h.nextRow
  obtain ⟨rows, keys, nextRow⟩ := t
  simp only at hrows hkeys hnext
  rw [hrows, hkeys, hnext]

/-- The records of a table that only models sharing its rows have written are listed row by row. -/
theorem listed_of_sound (hm : m.Sound) {v : View} (hv : v.Sound m.SharesRows)
    (hi : (v m.typeName).Indexed m.primaryKey?) (hrs : (v m.typeName).records m = .ok rs) :
    Listed m (v m.typeName) rs := by
  refine ⟨(hv m.typeName).ordered, hi, fun row hrow =>
    (hv m.typeName).proper (fun _ => Model.SharesRows.sound) hrow, ?_⟩
  have hread := records_eq_ok.mp hrs
  rw [List.forall₂_iff_get] at hread ⊢
  refine ⟨hread.1, fun j hj hj' => ?_⟩
  obtain ⟨m', hm', hname, hstores⟩ := (hv m.typeName).stored _ (List.get_mem _ ⟨j, hj⟩)
  exact Model.recovers_of_fromValues hm hm' hname hstores (hread.2 j hj hj')

end Table

namespace Store

variable {m : Model} {c : Configuration} {listed : Table} {rs : List Record} {s : Store}

/-- Deleting a record takes out the first row that is its counterpart, with its key. -/
theorem deleteOne_eq (hc : c.readOnly = false) {r : Record} {k n : Nat} {row : Values}
    (hstored : r.toValues = .ok r.stored) (ht : (s.tables.table m.typeName).Ordered)
    (hi : (s.tables.table m.typeName).Indexed m.primaryKey?)
    (hk : (s.tables.table m.typeName).values.findIdx? (m.isCounterpart r.stored) = some k)
    (hrow : (s.tables.table m.typeName).rows[k]? = some (n, row)) :
    (s.deleteOne c m r).1 = .ok () ∧
      (s.deleteOne c m r).2.tables.table = Function.update s.tables.table m.typeName
        { s.tables.table m.typeName with
          rows := (s.tables.table m.typeName).rows.eraseIdx k
          keys := (s.tables.table m.typeName).keys.eraseIdx k } := by
  obtain ⟨i, hidentity⟩ : ∃ i, m.identity r = .ok i := by
    simp only [Model.identity, hstored]
    cases m.primaryKey? <;> exact ⟨_, rfl⟩
  obtain ⟨wanted, hwanted, hselects⟩ := Model.selects_identity hidentity
  obtain rfl : r.stored = wanted := Except.ok.inj (hstored.symm.trans hwanted)
  have hfind : (s.tables.table m.typeName).find m i = .ok n := by
    rw [Table.find_eq_ok, hi.locate_eq i, Table.position?, hselects, hk, Option.bind_some, hrow,
      Option.map_some]
  have hview : (Access.delete m i).onView s.tables.table =
      (.ok (), Function.update s.tables.table m.typeName
        ((s.tables.table m.typeName).remove m.primaryKey? n)) := by
    simp only [Access.onView, Access.attempt, Access.typeName, Access.model, hfind, ok_bind]
    rfl
  have hdelete : s.deleteOne c m r = s.write c (Access.delete m i).perform := by
    simp only [deleteOne, hidentity, Access.perform]
  have hwrite := s.write_perform hc (.delete m i)
  rw [hview, hi.remove_eq ht hrow] at hwrite
  rw [hdelete]
  exact hwrite

/-- Where a record is still to be deleted, its deletion takes one row out and leaves the rest. -/
theorem exists_deletes (hc : c.readOnly = false) (hlisted : Table.Listed m listed rs) {r : Record}
    {rest : List Record} (hr : r ∈ rs)
    (h : Table.Remains m listed (r :: rest) (s.tables.table m.typeName)) :
    ∃ s', Deletes c m listed rs r s s' ∧
      Table.Remains m listed rest (s'.tables.table m.typeName) := by
  obtain ⟨j, n₀, row₀, hj, hrow₀, hrecovers⟩ := hlisted.exists_row hr
  obtain ⟨k, n, row, hk, hrow, hcounterpart, hrest⟩ := h.removes hlisted hr
  obtain ⟨hanswer, htables⟩ := deleteOne_eq hc hrecovers.stored h.ordered h.indexed hk hrow
  have htable := congrFun htables m.typeName
  rw [Function.update_self] at htable
  refine ⟨(s.deleteOne c m r).2, ⟨Prod.ext hanswer rfl, fun name hname => ?_, k, n, row,
    ⟨hk, hrow, htable⟩, j, (n₀, row₀), hj, hrow₀, fun hkeyed => ?_, fun hkeyless => ?_⟩, ?_⟩
  · rw [htables]
    exact Function.update_of_ne hname ..
  · obtain ⟨field, hkey⟩ := Option.ne_none_iff_exists'.mp hkeyed
    exact hlisted.row_unique hkey (h.rows.subset (List.mem_of_getElem? hrow))
      (List.mem_of_getElem? hrow₀) hcounterpart hrecovers.counterpart
  · have hsame := hrecovers.same hkeyless
    refine ⟨hsame, ?_⟩
    simpa only [Model.isCounterpart, hkeyless, hsame] using hcounterpart
  · rw [htable]
    exact hrest

/-- Records that are still to be deleted are deleted one after the other, and no row is left. -/
theorem exists_drains (hc : c.readOnly = false) (hlisted : Table.Listed m listed rs)
    {order : List Record} (horder : ∀ r ∈ order, r ∈ rs)
    (h : Table.Remains m listed order (s.tables.table m.typeName)) :
    ∃ s', Drains c m listed rs order s s' ∧
      s'.tables.table m.typeName = { nextRow := listed.nextRow } := by
  induction order generalizing s with
  | nil => exact ⟨s, .nil s, h.eq_empty hlisted⟩
  | cons r rest ih =>
    obtain ⟨hr, hmore⟩ := List.forall_mem_cons.mp horder
    obtain ⟨s₁, hdeletes, hremains⟩ := exists_deletes hc hlisted hr h
    obtain ⟨s₂, hdrains, hempty⟩ := ih hmore hremains
    exact ⟨s₂, .cons hdeletes hdrains, hempty⟩

/-- Whatever was listed can be deleted again, record by record and in any order, where the models
that have written to the table share its rows. -/
theorem listed_drained {c : Configuration} (hc : c.readOnly = false) (hm : m.Sound)
    (identifier : String) {events : List Event} (hevents : ∀ e ∈ events, e.Typed m.SharesRows)
    {rs order : List Record} (horder : order.Perm rs)
    (hrs : (after { identifier := identifier } events).objects m = .ok rs) :
    let s := after { identifier := identifier } events
    ∃ s', Drains c m (s.tables.table m.typeName) rs order s s' ∧
      s'.tables.table m.typeName = { nextRow := (s.tables.table m.typeName).nextRow } := by
  intro s
  have hs : View.Sound m.SharesRows s.tables.table :=
    after_sound (fun _ => Model.SharesRows.sound) hevents (sound_empty _ identifier)
  have hi : (s.tables.table m.typeName).Indexed m.primaryKey? :=
    after_indexed (fun _ => Model.SharesRows.sound) (fun _ => Model.SharesRows.primaryKey) hevents
      (sound_empty _ identifier) Table.indexed_empty
  have hlisted := Table.listed_of_sound hm hs hi hrs
  exact exists_drains hc hlisted (fun _ hr => horder.subset hr) (hlisted.remains horder)

/-- Two sensors at zero of which one has the sign of a negative number, and another one. -/
def sensorHistory : List Event := [
  .write (.volatile "db") (.call
    (.create .sensor [("name", .string "a"), ("reading", .float (.zero false))]) fun _ => .call
    (.create .sensor [("name", .string "b"), ("reading", .float (.zero false))]) fun _ => .call
    (.create .sensor [("name", .string "a"), ("reading", .float (.zero true))])
    fun _ => .finish (.ok ()))]

theorem typed_sensorHistory : ∀ e ∈ sensorHistory, e.Typed Model.sensor.SharesRows := by
  have hself : Model.sensor.SharesRows .sensor :=
    ⟨Model.sound_of_ofName "Sensor" rfl, fun _ => rfl⟩
  intro e he
  obtain rfl := List.mem_singleton.mp he
  exact ⟨⟨hself, by decide, trivial, rfl, trivial⟩, fun _ _ =>
    ⟨⟨hself, by decide, trivial, rfl, trivial⟩, fun _ _ =>
      ⟨⟨hself, by decide, trivial, rfl, trivial⟩, fun _ _ => trivial⟩⟩⟩

/-- Sensors have no primary key. Deleting the last of three first takes out the first of them, which
has an equal reading, and still no row is left. -/
theorem listed_drained_sensors : ∃ rs s' t',
    (after { identifier := "db" } sensorHistory).objects .sensor = .ok rs ∧
    Drains (.volatile "db") .sensor t' rs rs.reverse
      (after { identifier := "db" } sensorHistory) s' ∧
    s'.tables.table "Sensor" = { nextRow := 3 } := by
  let rs : List Record := [
    ⟨[("name", .string "a"), ("reading", .float (.zero false))], []⟩,
    ⟨[("name", .string "b"), ("reading", .float (.zero false))], []⟩,
    ⟨[("name", .string "a"), ("reading", .float (.zero true))], []⟩]
  have hrs : (after { identifier := "db" } sensorHistory).objects .sensor = .ok rs := rfl
  obtain ⟨s', hdrains, hempty⟩ := listed_drained (c := .volatile "db") rfl
    (Model.sound_of_ofName "Sensor" rfl) "db" typed_sensorHistory rs.reverse_perm hrs
  exact ⟨rs, s', _, hrs, hdrains, hempty⟩

/-- Two accounts of the newer version, which are found by their owners. The owner of the second is
the id of the first, and the first was deleted through the older version. -/
def strayHistory : List Event := [
  .write (.volatile "db") (.call (.create .accountV2
      [("id", .string "x"), ("owner", .string "o"), ("balance", .null)]) fun _ => .call
    (.create .accountV2 [("id", .string "z"), ("owner", .string "x"), ("balance", .null)])
    fun _ => .call (.delete .account (.primaryKey (.string "o"))) fun _ => .finish (.ok ()))]

theorem typed_strayHistory : ∀ e ∈ strayHistory, e.Typed Model.Sound := by
  intro e he
  obtain rfl := List.mem_singleton.mp he
  exact ⟨⟨Model.sound_accountV2, by decide, trivial, trivial, trivial, trivial⟩, fun _ _ =>
    ⟨⟨Model.sound_accountV2, by decide, trivial, trivial, trivial, trivial⟩, fun _ _ =>
      ⟨Model.sound_account, fun _ _ => trivial⟩⟩⟩

/-- Where another model with another key has written to the table, what is listed cannot always be
deleted: deleting an account through the older version takes its id out of the index, which is the
owner under which another one was to be found. -/
theorem not_listed_drained :
    ¬∀ (m : Model) (events : List Event) (rs : List Record) (r : Record), m.Sound →
      (∀ e ∈ events, e.Typed Model.Sound) →
      (after { identifier := "db" } events).objects m = .ok rs → r ∈ rs →
      ((after { identifier := "db" } events).deleteOne (.volatile "db") m r).1 = .ok () := by
  intro h
  let r : Record := ⟨[("id", .string "z"), ("owner", .string "x"), ("balance", .absent)], []⟩
  have hdeleted := h .accountV2 strayHistory [r] r Model.sound_accountV2 typed_strayHistory rfl
    (List.mem_singleton.mpr rfl)
  have hmissing : ((after { identifier := "db" } strayHistory).deleteOne (.volatile "db") .accountV2
      r).1 = .error (.objectNotFound "Account") := rfl
  exact nomatch hmissing.symm.trans hdeleted

end Store

end RecordStore
