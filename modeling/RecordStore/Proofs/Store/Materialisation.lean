import RecordStore.Proofs.Store.History

/-!
Reading records by their schema. What is read of a map of values depends on the entries that the
model names and on nothing else in it, and where some of them cannot be read, the first in the order
of the model is reported. A record is stored under the names of its model in their order, so all
rows that such models write have one sequence of keys.
-/
namespace RecordStore

namespace ModelField

/-- Whether a field can be read. What is not there is read as null. -/
def Readable (f : ModelField) (values : Values) : Prop :=
  Data.CanDecode ((values.get? f.name).getD .null) f.type

/-- Why a field cannot be read: it is missing and cannot be null, or is not of its type. -/
inductive Fails (typeName : String) (values : Values) (f : ModelField) : StoreError → Prop
  | missing (habsent : values.get? f.name = none) (hnull : ¬ Data.CanDecode .null f.type) :
      Fails typeName values f (.missingField typeName f.name)
  | mistyped {v : Json} {e : CodecError} (hget : values.get? f.name = some v)
      (h : Data.decode v f.type = .error e) : Fails typeName values f (.serialization e)

theorem not_canDecode_of_error {v : Json} {t : FieldType} {e : CodecError}
    (h : Data.decode v t = .error e) : ¬ Data.CanDecode v t := by
  rintro ⟨d, hd⟩
  cases h.symm.trans hd

theorem exists_error_of_not_canDecode {v : Json} {t : FieldType} (h : ¬ Data.CanDecode v t) :
    ∃ e, Data.decode v t = .error e := by
  cases hdecode : Data.decode v t with
  | ok d => exact absurd ⟨d, hdecode⟩ h
  | error e => exact ⟨e, rfl⟩

variable {typeName : String} {values : Values} {f : ModelField} {e : StoreError}

/-- Reading a field fails in just two ways: nothing is stored for it, or what is stored is no value
of its type. -/
theorem field_eq_error :
    values.field typeName f.name f.type = .error e ↔ f.Fails typeName values e := by
  unfold Values.field
  constructor
  · intro h
    cases hget : values.get? f.name with
    | none =>
      rw [hget] at h
      cases hdecode : Data.decode .null f.type with
      | ok d => simp only [hdecode] at h; cases h
      | error c =>
        simp only [hdecode] at h
        exact Except.error.inj h ▸ .missing hget (not_canDecode_of_error hdecode)
    | some v =>
      rw [hget] at h
      cases hdecode : Data.decode v f.type with
      | ok d => simp only [hdecode] at h; cases h
      | error c =>
        simp only [hdecode] at h
        exact Except.error.inj h ▸ .mistyped hget hdecode
  · intro h
    cases h with
    | missing habsent hnull =>
      obtain ⟨c, hc⟩ := exists_error_of_not_canDecode hnull
      simp only [habsent, hc]
    | mistyped hget h => simp only [hget, h]

end ModelField

namespace Model

/-- Reading looks at nothing but the entries under the names of the fields. -/
theorem readFields_congr (typeName : String) {v w : Values} {fs : List ModelField}
    (h : ∀ f ∈ fs, v.get? f.name = w.get? f.name) :
    readFields typeName v fs = readFields typeName w fs := by
  induction fs with
  | nil => rfl
  | cons f fs ih =>
    obtain ⟨hf, hfs⟩ := List.forall_mem_cons.mp h
    have hfield : v.field typeName f.name f.type = w.field typeName f.name f.type := by
      unfold Values.field
      rw [hf]
    rw [readFields, readFields, hfield, ih hfs]

theorem names_of_readFields {typeName : String} {values : Values} {fs : List ModelField} :
    ∀ fields, readFields typeName values fs = .ok fields →
      fields.map Prod.fst = fs.map ModelField.name := by
  induction fs with
  | nil =>
    intro fields hfields
    cases hfields
    rfl
  | cons f fs ih =>
    intro fields hfields
    obtain ⟨d, -, hfields⟩ := Data.bind_eq_ok.mp hfields
    obtain ⟨rest, hrest, hfields⟩ := Data.bind_eq_ok.mp hfields
    cases hfields
    rw [List.map_cons, List.map_cons, ih rest hrest]

section Errors

variable {typeName : String} {values : Values} {f : ModelField} {fs : List ModelField}
  {e : StoreError}

theorem readFields_of_field_error (h : values.field typeName f.name f.type = .error e) :
    readFields typeName values (f :: fs) = .error e := by
  rw [readFields, h]
  rfl

/-- The first field that cannot be read decides with what error a record is refused. -/
theorem readFields_of_field_ok {d : Data} (h : values.field typeName f.name f.type = .ok d) :
    readFields typeName values (f :: fs) = .error e ↔ readFields typeName values fs = .error e := by
  rw [readFields, h]
  cases readFields typeName values fs with
  | ok rest =>
    constructor
    · intro h
      cases h
    · intro h
      cases h
  | error c => exact Iff.rfl

/-- The first field that cannot be read is reported. -/
theorem readFields_eq_error :
    readFields typeName values fs = .error e ↔ ∃ before f after, fs = before ++ f :: after ∧
      (∀ g ∈ before, g.Readable values) ∧ f.Fails typeName values e := by
  induction fs with
  | nil => exact ⟨nofun, fun ⟨before, f, after, h, _⟩ => by cases before <;> cases h⟩
  | cons f fs ih =>
    constructor
    · intro h
      cases hfield : values.field typeName f.name f.type with
      | error e' =>
        obtain rfl := Except.error.inj ((readFields_of_field_error hfield).symm.trans h)
        exact ⟨[], f, fs, rfl, List.forall_mem_nil _, ModelField.field_eq_error.mp hfield⟩
      | ok d =>
        obtain ⟨before, g, after, rfl, hbefore, hg⟩ := ih.mp ((readFields_of_field_ok hfield).mp h)
        have hf : f.Readable values := exists_field_ok.mp ⟨d, hfield⟩
        exact ⟨f :: before, g, after, rfl, List.forall_mem_cons.mpr ⟨hf, hbefore⟩, hg⟩
    · rintro ⟨before, g, after, hsplit, hbefore, hg⟩
      cases before with
      | nil =>
        cases hsplit
        exact readFields_of_field_error (ModelField.field_eq_error.mpr hg)
      | cons f' before =>
        cases hsplit
        obtain ⟨hf, hbefore⟩ := List.forall_mem_cons.mp hbefore
        obtain ⟨d, hd⟩ := exists_field_ok.mpr hf
        exact (readFields_of_field_ok hd).mpr (ih.mpr ⟨before, g, after, rfl, hbefore, hg⟩)

end Errors

variable {m : Model} {values : Values} {r : Record} {row : Values}

theorem fromValues_congr (hform : m.form = .fields) {v w : Values}
    (h : ∀ f ∈ m.fields, v.get? f.name = w.get? f.name) : m.fromValues v = m.fromValues w := by
  simp only [fromValues, hform, readFields_congr m.typeName h]

theorem fromValues_eq_error (hform : m.form = .fields) {e : StoreError} :
    m.fromValues values = .error e ↔ ∃ before f after, m.fields = before ++ f :: after ∧
      (∀ g ∈ before, g.Readable values) ∧ f.Fails m.typeName values e := by
  rw [← readFields_eq_error]
  simp only [fromValues, hform]
  cases readFields m.typeName values m.fields <;> simp [Except.map]

/-- What is read has the fields of the model in their order, and the transient ones at their
default. -/
theorem shape_of_fromValues (hform : m.form = .fields) (h : m.fromValues values = .ok r) :
    r.fields.map Prod.fst = m.fields.map ModelField.name ∧ r.transient = m.defaults := by
  simp only [fromValues, hform] at h
  obtain ⟨fields, hfields, rfl⟩ := Data.map_eq_ok.mp h
  exact ⟨names_of_readFields fields hfields, rfl⟩

theorem keys_of_toValues (hnames : r.fields.map Prod.fst = m.fields.map ModelField.name)
    (h : r.toValues = .ok row) : row.map Prod.fst = m.fields.map ModelField.name := by
  rw [Data.keys_of_encodeFields (Record.toValues_eq_ok.mp h), hnames]

/-- Sound models that, where they have the type name of a given one, have fields of the same
names. -/
def SharesNames (m m' : Model) : Prop :=
  m'.Sound ∧ (m'.typeName = m.typeName →
    m'.form = .fields ∧ m'.fields.map ModelField.name = m.fields.map ModelField.name)

/-- The models of the catalog whose records are their fields share the names of their table. -/
theorem sharesNames_of_mem_catalog {e e' : String × Model} (h : e ∈ catalog) (h' : e' ∈ catalog)
    (hform : e.2.form = .fields) (hform' : e'.2.form = .fields) : e.2.SharesNames e'.2 := by
  have hnames : ∀ e ∈ catalog, e.2.form = .fields → ∀ e' ∈ catalog, e'.2.form = .fields →
      e'.2.typeName = e.2.typeName →
        e'.2.fields.map ModelField.name = e.2.fields.map ModelField.name := by
    decide
  exact ⟨sound_of_mem_catalog h', fun hname => ⟨hform', hnames e h hform e' h' hform' hname⟩⟩

end Model

namespace Table

variable {m : Model}

/-- A row that a table got for some model of its type name has the names of the fields as keys. -/
theorem Sound.keys {t : Table} (h : t.Sound m.SharesNames m.typeName) {row : Values}
    (hrow : row ∈ t.values) : row.map Prod.fst = m.fields.map ModelField.name := by
  obtain ⟨m', hm', hname, r, hr, hvalues⟩ := h.stored row hrow
  obtain ⟨hform, hnames⟩ := hm'.2 hname
  exact Model.keys_of_toValues ((Model.names_of_admits hr hform).trans hnames) hvalues

end Table

/-- A record created from any values is stored under the names of its model. -/
theorem Access.values_create {m : Model} (hform : m.form = .fields) {values : Values}
    {t t' : Table} {r : Record} (h : (Access.create m values).attempt t = .ok (r, t')) :
    ∃ row, t'.values = t.values ++ [row] ∧ row.map Prod.fst = m.fields.map ModelField.name := by
  obtain ⟨r', hr', h⟩ := Data.bind_eq_ok.mp h
  obtain ⟨row, hrow, h⟩ := Data.bind_eq_ok.mp h
  obtain ⟨t'', ht'', h⟩ := Data.bind_eq_ok.mp h
  cases h
  refine ⟨row, ?_, Model.keys_of_toValues (Model.shape_of_fromValues hform hr').1 hrow⟩
  rw [Table.values, (Table.insert_eq_ok ht'').1, List.map_append]
  rfl

namespace Store

theorem keys_of_history {m : Model} (identifier : String) {events : List Event}
    (hevents : ∀ e ∈ events, e.Typed m.SharesNames) {row : Values}
    (hrow : row ∈ ((after { identifier := identifier } events).tables.table m.typeName).values) :
    row.map Prod.fst = m.fields.map ModelField.name :=
  (after_sound (fun _ h => h.1) hevents (sound_empty _ identifier) m.typeName).keys hrow

/-- A model reads by its schema: maps that agree on its fields are read alike, transient fields come
back at their default, and the first field that cannot be read is reported. It writes by its schema
too: a record is stored under the names of the fields in their order, whatever it was created from,
so all rows of its table have these keys as long as only models with the same names write there. -/
theorem reads_and_writes_by_schema {m : Model} (hform : m.form = .fields) :
    (∀ v w : Values, (∀ f ∈ m.fields, v.get? f.name = w.get? f.name) →
      m.fromValues v = m.fromValues w) ∧
    (∀ values r, m.fromValues values = .ok r → r.transient = m.defaults) ∧
    (∀ values e, m.fromValues values = .error e ↔
      ∃ before f after, m.fields = before ++ f :: after ∧ (∀ g ∈ before, g.Readable values) ∧
        f.Fails m.typeName values e) ∧
    (∀ r row, m.Admits r → r.toValues = .ok row →
      row.map Prod.fst = m.fields.map ModelField.name) ∧
    (∀ values t r t', (Access.create m values).attempt t = .ok (r, t') →
      ∃ row, t'.values = t.values ++ [row] ∧ row.map Prod.fst = m.fields.map ModelField.name) ∧
    (∀ identifier events, (∀ e ∈ events, e.Typed m.SharesNames) →
      ∀ row ∈ ((after { identifier := identifier } events).tables.table m.typeName).values,
        row.map Prod.fst = m.fields.map ModelField.name) := by
  refine ⟨fun v w => Model.fromValues_congr hform, fun values r hr =>
    (Model.shape_of_fromValues hform hr).2, fun values e => Model.fromValues_eq_error hform,
    fun r row hr hrow => Model.keys_of_toValues (Model.names_of_admits hr hform) hrow,
    fun values t r t' h => Access.values_create hform h, ?_⟩
  intro identifier events hevents row hrow
  exact keys_of_history identifier hevents hrow

def looseHistory : List Event := [
  .write (.volatile "db") (.call (.create .account
      [("balance", .integer 1), ("remark", .null), ("owner", .string "o"), ("id", .string "x")])
    fun _ => .finish (.ok ()))]

theorem typed_looseHistory : ∀ e ∈ looseHistory, e.Typed Model.account.SharesNames := by
  intro e he
  obtain rfl := List.mem_singleton.mp he
  have hself : Model.account.SharesNames .account :=
    @Model.sharesNames_of_mem_catalog ("Account", .account) ("Account", .account)
      (mem_of_lookup rfl) (mem_of_lookup rfl) rfl rfl
  exact ⟨⟨hself, by decide, rfl, trivial, trivial, trivial, trivial⟩, fun _ _ => trivial⟩

/-- The account is stored as its model has it, and an account without its owner is refused for
that although its balance is none either. -/
theorem reads_and_writes_by_schema_looseHistory :
    Model.account.form = .fields ∧ (∀ e ∈ looseHistory, e.Typed Model.account.SharesNames) ∧
    ((after { identifier := "db" } looseHistory).tables.table "Account").values.map
      (·.map Prod.fst) = [["id", "owner", "balance"]] ∧
    Model.account.fromValues [("balance", .null), ("id", .string "x")] =
      .error (.missingField "Account" "owner") := by
  obtain ⟨-, -, herror, -, -, hkeys⟩ := reads_and_writes_by_schema (m := .account) rfl
  have howner : ¬ Data.CanDecode .null .string := fun ⟨d, hd⟩ => nomatch hd
  refine ⟨rfl, typed_looseHistory, ?_, ?_⟩
  · have hvalues : ((after { identifier := "db" } looseHistory).tables.table "Account").values =
        [[("id", .string "x"), ("owner", .string "o"), ("balance", .integer 1)]] := rfl
    have hrow := hkeys "db" looseHistory typed_looseHistory
    rw [hvalues]
    exact congrArg (fun keys => [keys]) (hrow _ (hvalues ▸ List.mem_singleton_self _))
  · refine (herror _ _).mpr ⟨[_], _, [_], rfl, ?_, .missing rfl howner⟩
    exact List.forall_mem_singleton.mpr ⟨.string "x", rfl⟩

end Store

end RecordStore
