import RecordStore.Model.Catalog
import RecordStore.Proofs.Field.Likeness
import RecordStore.Proofs.Field.RoundTrip
import Mathlib.Data.List.Forall2

/-!
Records and the rows that store them. A record that a model admits is stored as values that text can
express. What is read back from its row is stored as the same row, and it is the record itself with
its transient fields at their default where nothing in it is lost on the way.
-/
namespace RecordStore

open Data

theorem exists_of_forall₂ {α β : Type} {R : α → β → Prop} {as : List α} {bs : List β}
    (h : List.Forall₂ R as bs) {b : β} (hb : b ∈ bs) : ∃ a ∈ as, R a b := by
  induction h with
  | nil => exact absurd hb List.not_mem_nil
  | cons hhead _ ih =>
    rcases List.mem_cons.mp hb with rfl | hb
    · exact ⟨_, List.mem_cons_self .., hhead⟩
    · obtain ⟨a, ha, hab⟩ := ih hb
      exact ⟨a, List.mem_cons_of_mem _ ha, hab⟩

namespace Model

/-- Models whose fields have different names, and the persisted ones types that are read back. -/
structure Sound (m : Model) : Prop where
  names_nodup : (m.fields.map ModelField.name).Nodup
  isStable : ∀ f ∈ m.fields, f.type.isStable
  transient : ∀ f ∈ m.transient, f.name ∉ m.fields.map ModelField.name

/-- Models whose fields have different names, and the persisted ones types of which what loses
nothing is read back. -/
structure Regular (m : Model) : Prop where
  names_nodup : (m.fields.map ModelField.name).Nodup
  isReadable : ∀ f ∈ m.fields, f.type.isReadable
  transient : ∀ f ∈ m.transient, f.name ∉ m.fields.map ModelField.name

theorem Sound.regular {m : Model} (hm : m.Sound) : m.Regular :=
  ⟨hm.names_nodup, fun f hf => FieldType.isReadable_of_isStable _ (hm.isStable f hf), hm.transient⟩

def FieldsFit (fields : List (String × Data)) (modelFields : List ModelField) : Prop :=
  List.Forall₂ (fun e f => e.1 = f.name ∧ e.2.Fits f.type) fields modelFields

/-- Records of a model. One that takes any values has each under a name of its own. -/
def Admits (m : Model) (r : Record) : Prop :=
  match m.form with
  | .fields => FieldsFit r.fields m.fields
  | .verbatim => (r.fields.map Prod.fst).Nodup ∧ ∀ e ∈ r.fields, ∃ v, e.2 = .json v ∧ v.Proper

def SetsApart (m : Model) (fields : List (String × Data)) : Prop :=
  ∀ e ∈ fields, ∀ f ∈ m.fields, e.1 = f.name → e.2.SetsApart f.type

/-- Rows in which a record of the model is stored. -/
def Stores (m : Model) (row : Values) : Prop := ∃ r, m.Admits r ∧ r.toValues = .ok row

def CanRead (m : Model) (row : Values) : Prop := ∃ r, m.fromValues row = .ok r

instance (m : Model) (row : Values) : Decidable (m.CanRead row) :=
  match h : m.fromValues row with
  | .ok r => .isTrue ⟨r, h⟩
  | .error e => .isFalse fun ⟨r, hr⟩ => by rw [h] at hr; cases hr

/-- Every model of the catalog is sound. -/
theorem sound_of_mem_catalog {e : String × Model} (h : e ∈ catalog) : e.2.Sound := by
  have hnames : ∀ e ∈ catalog, (e.2.fields.map ModelField.name).Nodup := by decide
  have hstable : ∀ e ∈ catalog, ∀ f ∈ e.2.fields, f.type.isStable := by decide
  have htransient : ∀ e ∈ catalog, ∀ f ∈ e.2.transient, f.name ∉ e.2.fields.map ModelField.name :=
    by decide
  exact ⟨hnames _ h, hstable _ h, htransient _ h⟩

theorem sound_of_ofName {m : Model} (name : String) (h : ofName? name = some m) : m.Sound :=
  sound_of_mem_catalog (mem_of_lookup h)

theorem sound_account : account.Sound := sound_of_ofName "Account" rfl

theorem sound_accountV2 : accountV2.Sound := sound_of_ofName "AccountV2" rfl

theorem sound_rawAccount : rawAccount.Sound := sound_of_ofName "RawAccount" rfl

end Model

theorem Record.toValues_eq_ok {r : Record} {values : Values} :
    r.toValues = .ok values ↔ encodeFields r.fields = .ok values := by
  unfold Record.toValues
  cases encodeFields r.fields <;> simp

namespace Model

theorem names_of_fieldsFit {fields : List (String × Data)} {fs : List ModelField}
    (h : FieldsFit fields fs) : fields.map Prod.fst = fs.map ModelField.name := by
  induction h with
  | nil => rfl
  | cons hhead _ ih => rw [List.map_cons, List.map_cons, hhead.1, ih]

/-- What is read under a name is what is stored there, or null. -/
theorem field_eq_ok {values : Values} {typeName name : String} {t : FieldType} {d : Data} :
    values.field typeName name t = .ok d ↔ decode ((values.get? name).getD .null) t = .ok d := by
  unfold Values.field
  cases hget : values.get? name with
  | none => cases h : decode .null t <;> simp [h]
  | some v => cases h : decode v t <;> simp [h]

def FieldsReadBack (fields : List (String × Data)) (modelFields : List ModelField) : Prop :=
  List.Forall₂ (fun e f => e.1 = f.name ∧ ∀ v, e.2.encode = .ok v → ReadsBack e.2 f.type v)
    fields modelFields

theorem fieldsReadBack {fields : List (String × Data)} {fs : List ModelField}
    (h : FieldsFit fields fs) (hreadable : ∀ f ∈ fs, f.type.isReadable)
    (hapart : ∀ e ∈ fields, ∀ f ∈ fs, e.1 = f.name → e.2.SetsApart f.type) :
    FieldsReadBack fields fs := by
  induction h with
  | nil => exact .nil
  | @cons e f fields fs hhead _ ih =>
    have he := List.mem_cons_self (a := e) (l := fields)
    have hf := List.mem_cons_self (a := f) (l := fs)
    refine .cons ⟨hhead.1, fun v hv => ?_⟩ (ih (fun g hg => hreadable g (List.mem_cons_of_mem _ hg))
      fun e' he' g hg => hapart e' (List.mem_cons_of_mem _ he') g (List.mem_cons_of_mem _ hg))
    exact readsBack_of_setsApart e.2 f.type v hhead.2 (hreadable f hf) (hapart e he f hf hhead.1) hv

/-- Fields that are stored among other values under names of their own read back. -/
theorem readFields_of_encodeFields {fields : List (String × Data)} {fs : List ModelField}
    (typeName : String) (all : Values) (h : FieldsReadBack fields fs) :
    ∀ values, encodeFields fields = .ok values → (∀ e ∈ values, all.get? e.1 = some e.2) →
      Json.ProperEntries values ∧
        (∀ read, readFields typeName all fs = .ok read → encodeFields read = .ok values) ∧
        (PlainFields fields → readFields typeName all fs = .ok fields) := by
  induction h with
  | nil =>
    intro values hvalues _
    cases hvalues
    refine ⟨trivial, fun read hread => ?_, fun _ => rfl⟩
    cases hread
    rfl
  | @cons e f fields fs hhead _ ih =>
    intro values hvalues hall
    obtain ⟨name, d⟩ := e
    obtain ⟨rfl, hfield⟩ := hhead
    obtain ⟨v, hv, hvalues⟩ := bind_eq_ok.mp hvalues
    obtain ⟨rest, hrest, hvalues⟩ := bind_eq_ok.mp hvalues
    cases hvalues
    have hget : all.get? f.name = some v := hall (f.name, v) (List.mem_cons_self ..)
    have hback := hfield v hv
    obtain ⟨hproper, hagain, hexact⟩ := ih rest hrest fun e he =>
      hall e (List.mem_cons_of_mem _ he)
    refine ⟨⟨hback.proper, hproper⟩, fun read hread => ?_, fun hplain => ?_⟩
    · obtain ⟨d', hd', hread⟩ := bind_eq_ok.mp hread
      obtain ⟨read', hread', hread⟩ := bind_eq_ok.mp hread
      cases hread
      have hdecode : decode v f.type = .ok d' := by
        simpa only [hget, Option.getD_some] using field_eq_ok.mp hd'
      rw [encodeFields, hback.again d' hdecode, hagain read' hread']
      rfl
    · have hfield : all.field typeName f.name f.type = .ok d := by
        simp only [Values.field, hget, hback.exact hplain.1]
      rw [readFields, hfield, hexact hplain.2]
      rfl

/-- What is read of stored fields is of their types. -/
theorem fieldsFit_of_readFields {typeName : String} {values : Values} {fs : List ModelField}
    (hproper : values.Proper) (hstable : ∀ f ∈ fs, f.type.isStable) :
    ∀ fields, readFields typeName values fs = .ok fields →
      FieldsFit fields fs ∧ PlainFields fields := by
  induction fs with
  | nil =>
    intro fields hfields
    cases hfields
    exact ⟨.nil, trivial⟩
  | cons f fs ih =>
    intro fields hfields
    obtain ⟨d, hd, hfields⟩ := bind_eq_ok.mp hfields
    obtain ⟨rest, hrest, hfields⟩ := bind_eq_ok.mp hfields
    cases hfields
    obtain ⟨hfits, hplain⟩ := ih (fun g hg => hstable g (List.mem_cons_of_mem _ hg)) rest hrest
    have hread : Fits d f.type ∧ Plain d := by
      have hone := isRead_decode _ f.type d (hproper.get f.name) (hstable f (List.mem_cons_self ..))
        (field_eq_ok.mp hd)
      exact ⟨hone.fits, hone.plain⟩
    exact ⟨.cons ⟨rfl, hread.1⟩ hfits, hread.2, hplain⟩

theorem encodeFields_json (values : Values) :
    encodeFields (values.map fun (name, v) => (name, .json v)) = .ok values := by
  induction values with
  | nil => rfl
  | cons e rest ih =>
    rw [List.map_cons, encodeFields, ih]
    rfl

/-- Fields of arbitrary values are stored as they are. -/
theorem eq_json_of_encodeFields {fields : List (String × Data)}
    (h : ∀ e ∈ fields, ∃ v, e.2 = .json v ∧ v.Proper) :
    ∀ values, encodeFields fields = .ok values →
      fields = values.map (fun (name, v) => (name, .json v)) ∧ Json.ProperEntries values := by
  induction fields with
  | nil =>
    intro values hvalues
    cases hvalues
    exact ⟨rfl, trivial⟩
  | cons e rest ih =>
    intro values hvalues
    obtain ⟨name, d⟩ := e
    obtain ⟨w, hd, hw⟩ := h (name, d) (List.mem_cons_self ..)
    obtain rfl : d = .json w := hd
    obtain ⟨v, hv, hvalues⟩ := bind_eq_ok.mp hvalues
    obtain ⟨vs, hvs, hvalues⟩ := bind_eq_ok.mp hvalues
    cases hvalues
    obtain rfl : w = v := Except.ok.inj hv
    obtain ⟨hrest, hproper⟩ := ih (fun e he => h e (List.mem_cons_of_mem _ he)) vs hvs
    exact ⟨by rw [List.map_cons, ← hrest], hw, hproper⟩

theorem plainFields_json (values : Values) :
    PlainFields (values.map fun (name, v) => (name, .json v)) := by
  induction values with
  | nil => trivial
  | cons e rest ih => exact ⟨trivial, ih⟩

variable {m : Model} {r : Record} {row : Values}

theorem names_of_admits (h : m.Admits r) (hform : m.form = .fields) :
    r.fields.map Prod.fst = m.fields.map ModelField.name := by
  simp only [Admits, hform] at h
  exact names_of_fieldsFit h

theorem Regular.names_nodup_of_admits (hm : m.Regular) (h : m.Admits r) :
    (r.fields.map Prod.fst).Nodup := by
  cases hform : m.form with
  | fields =>
    rw [names_of_admits h hform]
    exact hm.names_nodup
  | verbatim =>
    simp only [Admits, hform] at h
    exact h.1

theorem names_nodup_of_admits (hm : m.Sound) (h : m.Admits r) : (r.fields.map Prod.fst).Nodup :=
  hm.regular.names_nodup_of_admits h

/-- The sets in a record of a sound model have members that are told apart by their type. -/
theorem setsApart_of_admits (hm : m.Sound) (h : m.Admits r) : m.SetsApart r.fields := by
  intro e he f hf hname
  cases hform : m.form with
  | fields =>
    simp only [Admits, hform] at h
    obtain ⟨g, hg, hname', hfits⟩ := exists_of_forall₂ (.flip h) he
    obtain rfl : f = g := List.inj_on_of_nodup_map hm.names_nodup hf hg (hname.symm.trans hname')
    exact setsApart_of_isStable e.2 f.type hfits (hm.isStable f hf)
  | verbatim =>
    simp only [Admits, hform] at h
    obtain ⟨v, hv, -⟩ := h.2 e he
    rw [hv]
    trivial

/-- What is read of values that text can express is a record that loses nothing when stored. -/
theorem admits_of_fromValues (hm : m.Sound) (hproper : row.Proper) (h : m.fromValues row = .ok r) :
    m.Admits r ∧ PlainFields r.fields ∧ r.transient = m.defaults := by
  unfold fromValues at h
  split at h
  · next hform =>
    obtain ⟨fields, hfields, rfl⟩ := map_eq_ok.mp h
    obtain ⟨hfits, hplain⟩ := fieldsFit_of_readFields hproper hm.isStable fields hfields
    exact ⟨by simpa only [Admits, hform] using hfits, hplain, rfl⟩
  · next hform =>
    cases h
    refine ⟨?_, plainFields_json row, rfl⟩
    simp only [Admits, hform]
    refine ⟨by simpa [Function.comp_def] using hproper.1, fun e he => ?_⟩
    obtain ⟨e', he', rfl⟩ := List.mem_map.mp he
    exact ⟨e'.2, rfl, Json.properEntries_iff.mp hproper.2 e' he'⟩

/-- How the row of a record reads back. -/
structure RowReadsBack (m : Model) (r : Record) (row : Values) : Prop where
  proper : row.Proper
  again : ∀ r', m.fromValues row = .ok r' → r'.toValues = .ok row
  exact : PlainFields r.fields → m.fromValues row = .ok { r with transient := m.defaults }

/-- A row is read back as what it stores, and as the record where it loses nothing. -/
theorem Regular.rowReadsBack (hm : m.Regular) (h : m.Admits r) (hapart : m.SetsApart r.fields)
    (hrow : r.toValues = .ok row) : RowReadsBack m r row := by
  have hencode := Record.toValues_eq_ok.mp hrow
  have hkeys : (row.map Prod.fst).Nodup := by
    rw [keys_of_encodeFields hencode]
    exact hm.names_nodup_of_admits h
  cases hform : m.form with
  | fields =>
    simp only [Admits, hform] at h
    obtain ⟨hproper, hagain, hexact⟩ := readFields_of_encodeFields m.typeName row
      (fieldsReadBack h hm.isReadable hapart) row hencode fun e he => lookup_of_mem hkeys he
    refine ⟨⟨hkeys, hproper⟩, fun r' hr' => ?_, fun hplain => ?_⟩
    · simp only [fromValues, hform] at hr'
      obtain ⟨fields, hfields, rfl⟩ := map_eq_ok.mp hr'
      exact Record.toValues_eq_ok.mpr (hagain fields hfields)
    · simp only [fromValues, hform, hexact hplain]
      rfl
  | verbatim =>
    simp only [Admits, hform] at h
    obtain ⟨hfields, hproper⟩ := eq_json_of_encodeFields h.2 row hencode
    refine ⟨⟨hkeys, hproper⟩, fun r' hr' => ?_, fun _ => ?_⟩
    · simp only [fromValues, hform] at hr'
      cases hr'
      exact Record.toValues_eq_ok.mpr (encodeFields_json row)
    · simp only [fromValues, hform, hfields]

theorem rowReadsBack (hm : m.Sound) (h : m.Admits r) (hrow : r.toValues = .ok row) :
    RowReadsBack m r row :=
  hm.regular.rowReadsBack h (setsApart_of_admits hm h) hrow

theorem proper_of_stores (hm : m.Sound) (h : m.Stores row) : row.Proper := by
  obtain ⟨r, hr, hrow⟩ := h
  exact (rowReadsBack hm hr hrow).proper

/-- Reading a row and storing what was read gives the row. -/
theorem toValues_of_fromValues (hm : m.Sound) (h : m.Stores row) (hr : m.fromValues row = .ok r) :
    r.toValues = .ok row := by
  obtain ⟨r', hr', hrow⟩ := h
  exact (rowReadsBack hm hr' hrow).again r hr

/-- A record that was read can be read again from the row in which it is stored. -/
theorem fromValues_toValues (hm : m.Sound) {values : Values} (hproper : values.Proper)
    (h : m.fromValues values = .ok r) (hrow : r.toValues = .ok row) : m.fromValues row = .ok r := by
  obtain ⟨hadmits, hplain, htransient⟩ := admits_of_fromValues hm hproper h
  rw [(rowReadsBack hm hadmits hrow).exact hplain, ← htransient]

theorem exists_field_ok {values : Values} {typeName name : String} {t : FieldType} :
    (∃ d, values.field typeName name t = .ok d) ↔
      CanDecode ((values.get? name).getD .null) t := by
  simp only [CanDecode, field_eq_ok]

theorem exists_readFields_ok {values : Values} {typeName : String} {fs : List ModelField} :
    (∃ fields, readFields typeName values fs = .ok fields) ↔
      ∀ f ∈ fs, CanDecode ((values.get? f.name).getD .null) f.type := by
  induction fs with
  | nil => simp [readFields]
  | cons f fs ih =>
    simp only [List.forall_mem_cons, ← ih, readFields, exists_bind_ok, exists_pure_ok, and_true,
      exists_and_right, @exists_field_ok values typeName]

/-- Of two rows with equal values a model can read both or none. -/
theorem canRead_of_same {row row' : Values} (hrow : row.Proper) (hrow' : row'.Proper)
    (h : row.same row' = true) (hread : m.CanRead row) : m.CanRead row' := by
  unfold CanRead fromValues at hread ⊢
  cases hform : m.form with
  | verbatim => exact ⟨_, rfl⟩
  | fields =>
    simp only [hform, exists_map_ok, exists_readFields_ok] at hread ⊢
    intro f hf
    have hfield := hread f hf
    have hboth := Values.rel_get_of_same hrow hrow' h f.name
    cases hv : row.get? f.name with
    | none =>
      cases hw : row'.get? f.name with
      | none => rwa [hv] at hfield
      | some w =>
        rw [hv, hw] at hboth
        cases hboth
    | some v =>
      cases hw : row'.get? f.name with
      | none =>
        rw [hv, hw] at hboth
        cases hboth
      | some w =>
        rw [hv, hw] at hboth
        rw [hv] at hfield
        cases hboth with
        | some hsame =>
          exact readsAs_of_same v w (Json.properEntries_iff.mp hrow.2 _ (mem_of_lookup hv))
            (Json.properEntries_iff.mp hrow'.2 _ (mem_of_lookup hw)) hsame f.type hfield

theorem fieldsFit_setField {fields : List (String × Data)} {fs : List ModelField}
    (hnames : (fs.map ModelField.name).Nodup) (h : FieldsFit fields fs) {f : ModelField}
    (hf : f ∈ fs) {d : Data} (hd : d.Fits f.type) : FieldsFit (setField f.name d fields) fs := by
  induction h with
  | nil => exact absurd hf List.not_mem_nil
  | @cons e g fields fs hhead hrest ih =>
    obtain ⟨name, old⟩ := e
    obtain ⟨rfl, hold⟩ := hhead
    obtain ⟨hnot, hnames⟩ := List.nodup_cons.mp hnames
    by_cases hname : g.name = f.name
    · rcases List.mem_cons.mp hf with rfl | hf
      · simp only [setField, beq_self_eq_true, if_true]
        exact .cons ⟨rfl, hd⟩ hrest
      · exact absurd (hname ▸ List.mem_map_of_mem hf) hnot
    · rcases List.mem_cons.mp hf with rfl | hf
      · exact absurd rfl hname
      · simp only [setField, beq_false_of_ne hname, Bool.false_eq_true, if_false]
        exact .cons ⟨rfl, hold⟩ (ih hnames hf)

/-- A record stays one of its model when a field is given a value of its type. -/
theorem admits_set (hm : m.Sound) (hform : m.form = .fields) (h : m.Admits r) {f : ModelField}
    (hf : f ∈ m.fields) {d : Data} (hd : d.Fits f.type) : m.Admits (r.set f.name d) := by
  simp only [Admits, hform] at h ⊢
  unfold Record.set
  split
  · exact h
  · exact fieldsFit_setField hm.names_nodup h hf hd

end Model

end RecordStore
