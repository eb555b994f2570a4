import RecordStore.Proofs.Field.Canonical
import RecordStore.Proofs.Store.Script

/-!
What creating a record stores. A record is created from values in any form that its fields are read
from, and stored in one form: the row reads back as the record that was returned, and creating a
record from the row does what creating it from the values did.
-/
namespace RecordStore

open Data

/-- Whether what is read for a type is read again from its stored form. -/
def FieldType.IsCanonical (t : FieldType) : Prop :=
  ∀ (v : Json) (d : Data), v.Proper → decode v t = .ok d →
    ∀ w, d.encode = .ok w → decode w t = .ok d

/-- Whether what is read for a type can be stored. -/
def FieldType.IsStorable (t : FieldType) : Prop :=
  ∀ (v : Json) (d : Data), v.Proper → decode v t = .ok d → d.Storable

namespace Model

variable {m : Model}

/-- Models whose persisted fields have different names and types without floating-point numbers. -/
structure Floatless (m : Model) : Prop where
  names_nodup : (m.fields.map ModelField.name).Nodup
  isFloatless : ∀ f ∈ m.fields, f.type.isFloatless

/-- What a record that was created leaves in its transaction: one more row, which reads back as the
record, and from which the same record would be created with the same row. -/
structure Created (m : Model) (values : Values) (t t' : Transaction) (r : Record) (row : Values) :
    Prop where
  stored : r.toValues = .ok row
  appended : (t'.writable m.typeName).rows =
    (t.writable m.typeName).rows ++ [((t.writable m.typeName).nextRow, row)]
  readBack : m.fromValues row = .ok r
  again : Transact.create m row = Transact.create m values

/-- Whether creating records of a model stores them in a canonical form. -/
def IsCanonical (m : Model) : Prop :=
  ∀ (values : Values) (t t' : Transaction) (r : Record),
    outcome (Transact.create m values) t = (.ok r, t') → ∃ row, m.Created values t t' r row

def KeptFields (fields : List (String × Data)) (fs : List ModelField) : Prop :=
  List.Forall₂ (fun e f => e.1 = f.name ∧ Kept e.2 f.type) fields fs

/-- What is read of stored values without numbers that have a fraction is kept in its one form. -/
theorem keptFields_of_readFields {typeName : String} {values : Values} {fs : List ModelField}
    (hfloatless : ∀ f ∈ fs, f.type.isFloatless) {fields : List (String × Data)}
    (h : readFields typeName values fs = .ok fields) : KeptFields fields fs := by
  induction fs generalizing fields with
  | nil =>
    cases h
    exact .nil
  | cons f fs ih =>
    obtain ⟨hf, hfs⟩ := List.forall_mem_cons.mp hfloatless
    obtain ⟨d, hd, h⟩ := bind_eq_ok.mp h
    obtain ⟨rest, hrest, h⟩ := bind_eq_ok.mp h
    cases h
    exact .cons ⟨rfl, (isKept_decode _ f.type d hf (field_eq_ok.mp hd)).kept⟩ (ih hfs hrest)

/-- Fields that are stored among other values under names of their own read back. -/
theorem readFields_of_keptFields {fields : List (String × Data)} {fs : List ModelField}
    (typeName : String) (all : Values) (h : KeptFields fields fs) {values : Values}
    (hvalues : encodeFields fields = .ok values) (hall : ∀ e ∈ values, all.get? e.1 = some e.2) :
    readFields typeName all fs = .ok fields := by
  induction h generalizing values with
  | nil => rfl
  | @cons e f fields fs hhead _ ih =>
    obtain ⟨name, d⟩ := e
    obtain ⟨rfl, hd⟩ := hhead
    obtain ⟨v, hv, hvalues⟩ := bind_eq_ok.mp hvalues
    obtain ⟨rest, hrest, hvalues⟩ := bind_eq_ok.mp hvalues
    cases hvalues
    obtain ⟨hget, hall⟩ := List.forall_mem_cons.mp hall
    have hfield : all.field typeName f.name f.type = .ok d := by
      rw [field_eq_ok, hget, Option.getD_some]
      exact hd v hv
    rw [readFields, hfield, ih hrest hall]
    rfl

/-- A record that was read is read again from the row in which it is stored. -/
theorem Floatless.fromValues_toValues (hm : m.Floatless) {values row : Values} {r : Record}
    (h : m.fromValues values = .ok r) (hrow : r.toValues = .ok row) : m.fromValues row = .ok r := by
  have hencode := Record.toValues_eq_ok.mp hrow
  cases hform : m.form with
  | verbatim =>
    have hread := h
    simp only [fromValues, hform] at h
    cases h
    have hsame : row = values := Except.ok.inj (hencode.symm.trans (encodeFields_json values))
    rw [hsame, hread]
  | fields =>
    simp only [fromValues, hform] at h ⊢
    obtain ⟨fields, hfields, rfl⟩ := map_eq_ok.mp h
    have hkept := keptFields_of_readFields hm.isFloatless hfields
    have hnames : fields.map Prod.fst = m.fields.map ModelField.name := by
      rw [← List.forall₂_eq_eq_eq, List.forall₂_map_left_iff, List.forall₂_map_right_iff]
      exact hkept.imp fun _ _ he => he.1
    have hkeys : (row.map Prod.fst).Nodup := by
      rw [keys_of_encodeFields hencode, hnames]
      exact hm.names_nodup
    rw [readFields_of_keptFields m.typeName row hkept hencode fun e he => lookup_of_mem hkeys he]
    rfl

/-- What an operation that succeeds answers and leaves of its table. -/
theorem attempt_of_outcome {a : Access} {t t' : Transaction} {reply : a.Reply}
    (h : outcome a.perform t = (.ok reply, t')) :
    a.attempt (t.writable a.typeName) = .ok (reply, t'.writable a.typeName) := by
  obtain ⟨t'', hperform, hreaches⟩ := outcome_perform a t
  obtain ⟨hreply, rfl⟩ := Prod.mk.inj (hperform.symm.trans h)
  rw [hreaches.view]
  unfold Access.onView at hreply ⊢
  split at hreply
  · next table hattempt =>
    cases hreply
    show _ = Except.ok (reply, Function.update t.writable a.typeName table a.typeName)
    rw [hattempt, Function.update_self]
  · cases hreply

theorem Floatless.isCanonical (hm : m.Floatless) : m.IsCanonical := by
  intro values t t' r h
  have hattempt := attempt_of_outcome (a := .create m values) h
  obtain ⟨r', hread, hattempt⟩ := bind_eq_ok.mp hattempt
  obtain ⟨row, hrow, hattempt⟩ := bind_eq_ok.mp hattempt
  obtain ⟨table, hinsert, hattempt⟩ := bind_eq_ok.mp hattempt
  obtain ⟨rfl, htable⟩ := Prod.mk.inj (Except.ok.inj hattempt)
  have hback := hm.fromValues_toValues hread hrow
  refine ⟨row, hrow, ?_, hback, ?_⟩
  · have htable : table = t'.writable m.typeName := htable
    rw [← htable]
    exact (Table.insert_eq_ok hinsert).1
  · rw [Transact.create, Transact.create, hback, hread]

end Model

/-- Storing leaves a canonical form of values without floating-point numbers, and of the records
that are made of them. All values that can be read can be stored where the keys of maps have texts,
which keys within options and stored values as keys do not have. -/
theorem isCanonical_of_floatless {t : FieldType} {m : Model} (ht : t.isFloatless)
    (hm : m.Floatless) :
    t.IsCanonical ∧ (t.hasTextKeys → t.IsStorable) ∧ m.IsCanonical :=
  ⟨fun v d _ hd => (isKept_decode v t d ht hd).kept,
    fun hkeys v d hv hd => storable_decode v t d hv hkeys hd, hm.isCanonical⟩

example : ¬ (FieldType.map (.option .string) .u8).IsStorable := by
  intro h
  have hproper : (Json.object [("a", .integer 1)]).Proper := ⟨by decide, rfl, trivial⟩
  obtain ⟨v, hv⟩ := h _ _ hproper rfl
  cases hv

/-- A blob in forms that are not the stored ones: a variant as a map, and a struct as a sequence. -/
def looseBlob : Values := [
  ("digest", .array [.integer 1, .integer 2, .integer 3, .integer 4]),
  ("pair", .array [.integer 7, .bool true]), ("scores", .object []), ("initial", .string "x"),
  ("delta", .integer (-1)), ("status", .object [("Open", .null)]),
  ("comments", .array [.array [.string "hi"]])]

/-- Members of a set that repeat are read as the members once, and the blob is stored with its
variant as a text and its comment as a map. -/
theorem isCanonical_looseBlob : ∃ d r t',
    decode (.array [.integer 3, .integer 1, .integer 3]) (.set .u32) = .ok d ∧
      (d.Storable ∧ ∀ w, d.encode = .ok w → decode w (.set .u32) = .ok d) ∧
      outcome (Transact.create .blob looseBlob) ⟨[], []⟩ = (.ok r, t') ∧
      ∃ row, Model.blob.Created looseBlob ⟨[], []⟩ t' r row := by
  have hblob : Model.blob.Floatless := ⟨by decide, by decide⟩
  obtain ⟨hcanonical, hstorable, hmodel⟩ := isCanonical_of_floatless (t := .set .u32) rfl hblob
  have hproper : (Json.array [.integer 3, .integer 1, .integer 3]).Proper :=
    ⟨rfl, rfl, rfl, trivial⟩
  exact ⟨_, _, _, rfl, ⟨hstorable rfl _ _ hproper rfl, hcanonical _ _ hproper rfl⟩, rfl,
    hmodel _ _ _ _ rfl⟩

end RecordStore
