import RecordStore.Proofs.Field.Faithful
import RecordStore.Proofs.Model.Changes

/-!
Records and what is shown of them once they are stored. A field is shown as it was just where its
value loses nothing in its stored form. Where the fields of a model are of faithful types, this is
so for all fields of a record whose row can be read at all. Giving some fields values of their types
makes of a record one of the model in which those fields have those values.
-/
namespace RecordStore

open Data

namespace Data

theorem plainFields_iff {fields : List (String × Data)} :
    PlainFields fields ↔ ∀ e ∈ fields, Plain e.2 := by
  induction fields with
  | nil => simp [PlainFields]
  | cons e rest ih => simp [PlainFields, ih]

end Data

namespace Model

variable {m : Model} {r : Record} {row : Values}

/-- Sound models with fields of faithful types. -/
structure Faithful (m : Model) : Prop extends Sound m where
  form : m.form = .fields
  isFaithful : ∀ f ∈ m.fields, f.type.isFaithful

/-- Every model of the catalog that has fields is faithful. -/
theorem faithful_of_mem_catalog {e : String × Model} (h : e ∈ catalog)
    (hform : e.2.form = .fields) : e.2.Faithful := by
  have hfaithful : ∀ e ∈ catalog, e.2.form = .fields → ∀ f ∈ e.2.fields, f.type.isFaithful := by
    decide
  exact ⟨sound_of_mem_catalog h, hform, hfaithful _ h hform⟩

/-- A record whose row can be read loses nothing when it is stored. -/
theorem Faithful.plainFields (hm : m.Faithful) (hr : m.Admits r) (hrow : r.toValues = .ok row)
    (hread : m.CanRead row) : PlainFields r.fields := by
  have hencode := Record.toValues_eq_ok.mp hrow
  have hnames := names_nodup_of_admits hm.toSound hr
  have hfit : FieldsFit r.fields m.fields := by simpa only [Admits, hm.form] using hr
  have hfields : List.Forall₂ (fun f (e : String × Data) => e.1 = f.name ∧ e.2.Fits f.type)
      m.fields r.fields := .flip hfit
  simp only [CanRead, fromValues, hm.form, exists_map_ok, exists_readFields_ok] at hread
  refine plainFields_iff.mpr fun e he => ?_
  obtain ⟨f, hf, hname, hd⟩ := exists_of_forall₂ hfields he
  obtain ⟨v, hv⟩ := encode_of_mem hencode he
  have hget : row.get? f.name = some v := by
    rw [← hname, get_of_encodeFields hencode, lookup_of_mem hnames he]
    simp [hv, Except.toOption]
  have hcan := hread f hf
  rw [hget] at hcan
  exact plain_of_canDecode e.2 f.type v hd (hm.isStable f hf) (hm.isFaithful f hf) hv hcan

/-- What is read of stored fields has each field as it was, just where it loses nothing. -/
theorem readFields_shown {fields : List (String × Data)} {fs : List ModelField} (typeName : String)
    {all : Values} (h : FieldsReadBack fields fs) (hstable : ∀ f ∈ fs, f.type.isStable) :
    ∀ values, encodeFields fields = .ok values → (∀ e ∈ values, all.get? e.1 = some e.2) →
      ∀ read, readFields typeName all fs = .ok read →
        List.Forall₂ (fun e shown => shown.1 = e.1 ∧ (shown.2 = e.2 ↔ Plain e.2)) fields read := by
  induction h with
  | nil =>
    intro values _ _ read hread
    cases hread
    exact .nil
  | @cons e f fields fs hhead _ ih =>
    intro values hvalues hall read hread
    obtain ⟨name, d⟩ := e
    obtain ⟨rfl, hfield⟩ := hhead
    obtain ⟨v, hv, hvalues⟩ := bind_eq_ok.mp hvalues
    obtain ⟨rest, hrest, hvalues⟩ := bind_eq_ok.mp hvalues
    cases hvalues
    obtain ⟨d', hd', hread⟩ := bind_eq_ok.mp hread
    obtain ⟨read', hread', hread⟩ := bind_eq_ok.mp hread
    cases hread
    obtain ⟨hf, hfs⟩ := List.forall_mem_cons.mp hstable
    obtain ⟨hget, hall⟩ := List.forall_mem_cons.mp hall
    have hdecode : decode v f.type = .ok d' := by
      simpa only [hget, Option.getD_some] using field_eq_ok.mp hd'
    have hback := hfield v hv
    refine .cons ⟨rfl, fun heq => ?_, fun hplain => ?_⟩ (ih hfs rest hrest hall read' hread')
    · exact heq ▸ (isRead_decode v f.type d' hback.proper hf hdecode).plain
    · exact Except.ok.inj (hdecode.symm.trans (hback.exact hplain))

/-- What is shown of some fields once they are stored: every field as it was, just where its value
loses nothing; in a faithful model all of them; and transient fields at their default. -/
structure Shown (m : Model) (given : List (String × Data)) (shown : Record) : Prop where
  transient : shown.transient = m.defaults
  fields : List.Forall₂ (fun e s => s.1 = e.1 ∧ (s.2 = e.2 ↔ Plain e.2)) given shown.fields
  faithful : m.Faithful → shown.fields = given

/-- What is read of the row of a record shows the record. -/
theorem shown_of_fromValues (hm : m.Sound) (hform : m.form = .fields) (hr : m.Admits r)
    (hrow : r.toValues = .ok row) {shown : Record} (hread : m.fromValues row = .ok shown) :
    m.Shown r.fields shown := by
  have hencode := Record.toValues_eq_ok.mp hrow
  have hkeys : (row.map Prod.fst).Nodup := by
    rw [keys_of_encodeFields hencode]
    exact names_nodup_of_admits hm hr
  have hfit : FieldsFit r.fields m.fields := by simpa only [Admits, hform] using hr
  obtain ⟨read, hfields, rfl⟩ : ∃ read, readFields m.typeName row m.fields = .ok read ∧
      shown = ⟨read, m.defaults⟩ := by
    simp only [fromValues, hform] at hread
    obtain ⟨read, hfields, hshown⟩ := map_eq_ok.mp hread
    exact ⟨read, hfields, hshown.symm⟩
  refine ⟨rfl, ?_, fun hfaithful => ?_⟩
  · have hback := fieldsReadBack hfit (fun f hf => (hm.regular).isReadable f hf)
      fun e he f hf hname => setsApart_of_admits hm hr e he f hf hname
    exact readFields_shown m.typeName hback hm.isStable row hencode
      (fun e he => lookup_of_mem hkeys he) read hfields
  · have hexact := (rowReadsBack hm hr hrow).exact (hfaithful.plainFields hr hrow ⟨_, hread⟩)
    rw [hread] at hexact
    exact (Record.mk.inj (Except.ok.inj hexact)).1

/-- Changes of persisted fields to values of their types. -/
structure TypedChanges (m : Model) (changes : List (String × Data)) : Prop
    extends Changes m changes where
  fits : ∀ f ∈ m.fields, ∀ d, changes.lookup f.name = some d → d.Fits f.type

theorem fieldsFit_replaceFields {given : String → Option Data} {fields : List (String × Data)}
    {fs : List ModelField} (h : FieldsFit fields fs)
    (hgiven : ∀ f ∈ fs, ∀ d, given f.name = some d → d.Fits f.type) :
    FieldsFit (replaceFields given fields) fs := by
  induction h with
  | nil => exact .nil
  | @cons e f fields fs hhead _ ih =>
    obtain ⟨hname, hfits⟩ := hhead
    refine .cons ⟨hname, ?_⟩ (ih fun g hg => hgiven g (List.mem_cons_of_mem _ hg))
    show ((given e.1).getD e.2).Fits f.type
    cases hd : given e.1 with
    | none => exact hfits
    | some d => exact hgiven f (List.mem_cons_self ..) d (hname ▸ hd)

theorem plain_of_replaceFields {given : String → Option Data} {fields : List (String × Data)}
    (hplain : PlainFields fields) {e : String × Data} (he : e ∈ replaceFields given fields)
    (hgiven : given e.1 = none) : Plain e.2 := by
  obtain ⟨⟨name, d⟩, hmem, rfl⟩ := List.mem_map.mp he
  have hnone : given name = none := hgiven
  show Plain ((given name).getD d)
  rw [hnone]
  exact plainFields_iff.mp hplain _ hmem

/-- A record of the model stays one when fields are given values of their types, and it has them. -/
theorem Sound.setAll (hm : m.Sound) (hform : m.form = .fields) (hr : m.Admits r)
    (htransient : r.transient = m.defaults) {changes : List (String × Data)}
    (hchanges : m.TypedChanges changes) :
    m.Admits (r.setAll changes) ∧ (r.setAll changes).transient = m.defaults ∧
      ∀ c ∈ changes, (r.setAll changes).get? c.1 = some c.2 := by
  rw [setAll_changes hm hform hr htransient hchanges.toChanges]
  refine ⟨?_, htransient, fun c hc => ?_⟩
  · simp only [Admits, hform] at hr ⊢
    exact fieldsFit_replaceFields hr hchanges.fits
  · have hgiven := lookup_of_mem hchanges.names_nodup hc
    have hname : c.1 ∈ r.fields.map Prod.fst :=
      names_of_admits hr hform ▸ hchanges.persisted c hc
    obtain ⟨e, he, hc'⟩ := List.mem_map.mp hname
    have hold := lookup_of_mem (names_nodup_of_admits hm hr) he
    rw [Record.get?, lookup_replaceFields, ← hc', hold, hc', hgiven]
    rfl

end Model

end RecordStore
