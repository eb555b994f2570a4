import RecordStore.Proofs.Json.Text
import RecordStore.Proofs.Model.Records
import RecordStore.Store.Table

/-!
Primary keys as values. The key of a row is what its key field is read as; the index goes by the
text in which it is stored. Where a key is stored as reading and storing it again would have it, two
rows have one text just where they have one key.
-/
namespace RecordStore

open Table (keyText)

namespace Model

def keyField? (m : Model) : Option ModelField := m.fields.find? (·.isPrimaryKey)

/-- The type that a field is stored with; a record that takes any values takes any there. -/
def storedType (m : Model) (f : ModelField) : FieldType :=
  match m.form with
  | .fields => f.type
  | .verbatim => .json

def key? (m : Model) (values : Values) : Option Data :=
  m.keyField?.bind fun f =>
    (Data.decode ((values.get? f.name).getD .null) (m.storedType f)).toOption

def KeepsKey (m : Model) (row : Values) : Prop :=
  ∀ f, m.keyField? = some f → ∀ d, m.key? row = some d →
    d.encode = .ok ((row.get? f.name).getD .null)

/-- Sound models that, where they have the type name of a given one, have its key field and store
its key in the form that it would give it. -/
def SharesKey (m m' : Model) : Prop :=
  m'.Sound ∧ (m'.typeName = m.typeName →
    m'.primaryKey? = m.primaryKey? ∧ ∀ row, m'.Stores row → m.KeepsKey row)

variable {m : Model} {f : ModelField} {row a b : Values} {d : Data} {r : Record}

theorem primaryKey_eq_some {field : String} :
    m.primaryKey? = some field ↔ ∃ f, m.keyField? = some f ∧ f.name = field :=
  Option.map_eq_some_iff

theorem key_eq_some (hf : m.keyField? = some f) :
    m.key? row = some d ↔
      Data.decode ((row.get? f.name).getD .null) (m.storedType f) = .ok d := by
  rw [key?, hf, Option.bind_some]
  cases Data.decode ((row.get? f.name).getD .null) (m.storedType f) with
  | ok e => simp [Except.toOption]
  | error e => simp [Except.toOption]

theorem mem_of_keyField (hf : m.keyField? = some f) : f ∈ m.fields := List.mem_of_find?_eq_some hf

/-- Rows with one key text have one key, or none that can be read. -/
theorem key_eq_of_keyText (hf : m.keyField? = some f) (ha : a.Proper) (hb : b.Proper)
    (h : keyText a f.name = keyText b f.name) : m.key? a = m.key? b := by
  have hstored := Json.compact_inj (ha.get f.name) (hb.get f.name) h
  rw [key?, key?, hf, Option.bind_some, Option.bind_some, hstored]

/-- Rows with one key have one key text. -/
theorem keyText_eq_of_key (hf : m.keyField? = some f) (ha : m.KeepsKey a) (hb : m.KeepsKey b)
    (hd : m.key? a = some d) (h : m.key? a = m.key? b) : keyText a f.name = keyText b f.name := by
  have hstored := (ha f hf d hd).symm.trans (hb f hf d (h ▸ hd))
  exact congrArg Json.compact (Except.ok.inj hstored)

/-- Under the name of a field is stored what all that is read from it is stored as again. -/
theorem stored_field {fields : List (String × Data)} {fs : List ModelField} {all : Values}
    (h : FieldsFit fields fs) (hstable : ∀ f ∈ fs, f.type.isStable) :
    ∀ values, Data.encodeFields fields = .ok values → (∀ e ∈ values, all.get? e.1 = some e.2) →
      ∀ f ∈ fs, ∃ v, all.get? f.name = some v ∧
        ∀ d, Data.decode v f.type = .ok d → d.encode = .ok v := by
  induction h with
  | nil => exact fun _ _ _ f hf => absurd hf List.not_mem_nil
  | @cons e g fields fs hhead _ ih =>
    intro values hvalues hall f hf
    obtain ⟨name, d⟩ := e
    obtain ⟨rfl, hfits⟩ := hhead
    obtain ⟨v, hv, hvalues⟩ := Data.bind_eq_ok.mp hvalues
    obtain ⟨rest, hrest, hvalues⟩ := Data.bind_eq_ok.mp hvalues
    cases hvalues
    obtain ⟨hg, hfs⟩ := List.forall_mem_cons.mp hstable
    obtain ⟨hget, hall⟩ := List.forall_mem_cons.mp hall
    rcases List.mem_cons.mp hf with rfl | hf
    · exact ⟨v, hget, (Data.readsBack d f.type v hfits hg hv).again⟩
    · exact ih hfs rest hrest hall f hf

/-- A model stores every key in the form that it gets anew. -/
theorem keepsKey_of_stores (hm : m.Sound) (h : m.Stores row) : m.KeepsKey row := by
  intro f hf d hd
  rw [key_eq_some hf] at hd
  obtain ⟨r, hr, hrow⟩ := h
  unfold storedType at hd
  cases hform : m.form with
  | verbatim =>
    rw [hform, Data.decode_json] at hd
    obtain rfl := Except.ok.inj hd
    rfl
  | fields =>
    have hencode := Record.toValues_eq_ok.mp hrow
    have hkeys : (row.map Prod.fst).Nodup := by
      rw [Data.keys_of_encodeFields hencode]
      exact names_nodup_of_admits hm hr
    simp only [Admits, hform] at hr
    obtain ⟨v, hget, hagain⟩ := stored_field hr hm.isStable row hencode
      (fun e he => lookup_of_mem hkeys he) f (mem_of_keyField hf)
    rw [hform, hget, Option.getD_some] at hd
    rw [hget, Option.getD_some]
    exact hagain d hd

/-- Every field of what was read is read from what is stored under its name. -/
theorem read_field {typeName : String} {values : Values} {fs : List ModelField}
    (hnames : (fs.map ModelField.name).Nodup) :
    ∀ fields, readFields typeName values fs = .ok fields → ∀ f ∈ fs, ∃ d,
      fields.lookup f.name = some d ∧
        Data.decode ((values.get? f.name).getD .null) f.type = .ok d := by
  induction fs with
  | nil => exact fun _ _ f hf => absurd hf List.not_mem_nil
  | cons g fs ih =>
    intro fields hfields f hf
    obtain ⟨hnot, hnames⟩ := List.nodup_cons.mp hnames
    obtain ⟨d, hd, hfields⟩ := Data.bind_eq_ok.mp hfields
    obtain ⟨rest, hrest, hfields⟩ := Data.bind_eq_ok.mp hfields
    cases hfields
    rcases List.mem_cons.mp hf with rfl | hf
    · exact ⟨d, by simp, field_eq_ok.mp hd⟩
    · obtain ⟨e, he, hdecode⟩ := ih hnames rest hrest f hf
      refine ⟨e, ?_, hdecode⟩
      have hne : f.name ≠ g.name := fun heq => hnot (heq ▸ List.mem_map_of_mem hf)
      rw [List.lookup_cons, beq_false_of_ne hne]
      exact he

/-- The key of values that are read is that of the record; one that takes any values has null where
there is nothing. -/
theorem key_of_fromValues (hm : m.Sound) (hf : m.keyField? = some f)
    (h : m.fromValues row = .ok r) : m.key? row = some ((r.get? f.name).getD (.json .null)) := by
  rw [key_eq_some hf]
  unfold fromValues at h
  unfold storedType
  cases hform : m.form with
  | fields =>
    simp only [hform] at h ⊢
    obtain ⟨fields, hfields, rfl⟩ := Data.map_eq_ok.mp h
    obtain ⟨d, hget, hd⟩ := read_field hm.names_nodup fields hfields f (mem_of_keyField hf)
    rw [Record.get?, hget]
    exact hd
  | verbatim =>
    simp only [hform] at h ⊢
    cases h
    rw [Data.decode_json, Record.get?, Values.get?]
    induction row with
    | nil => rfl
    | cons e rest ih =>
      rw [List.map_cons, List.lookup_cons, List.lookup_cons]
      cases f.name == e.1 with
      | true => rfl
      | false => exact ih

end Model

end RecordStore
