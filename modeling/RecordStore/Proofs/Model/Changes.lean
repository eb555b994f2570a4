import RecordStore.Proofs.Model.Records

/-!
Changing some fields of a record. The fields that are given take their new values, the others keep
theirs, and so does the row in which the record is stored.
-/
namespace RecordStore

open Data

def replaceFields (given : String → Option Data) (fields : List (String × Data)) :
    List (String × Data) :=
  fields.map fun e => (e.1, (given e.1).getD e.2)

/-- Changes of persisted fields, each given once. -/
structure Model.Changes (m : Model) (changes : List (String × Data)) : Prop where
  names_nodup : (changes.map Prod.fst).Nodup
  persisted : ∀ c ∈ changes, c.1 ∈ m.fields.map ModelField.name

/-- Setting a field replaces its value and leaves all others. -/
theorem setField_eq_map {name : String} {d : Data} {fields : List (String × Data)}
    (hnames : (fields.map Prod.fst).Nodup) (h : name ∈ fields.map Prod.fst) :
    setField name d fields = fields.map fun e => (e.1, if e.1 = name then d else e.2) := by
  induction fields with
  | nil => exact absurd h List.not_mem_nil
  | cons e rest ih =>
    obtain ⟨n, old⟩ := e
    obtain ⟨hnot, hrest⟩ := List.nodup_cons.mp hnames
    by_cases hn : n = name
    · subst hn
      have hkeep : rest.map (fun e => (e.1, if e.1 = n then d else e.2)) = rest := by
        conv_rhs => rw [← List.map_id' rest]
        refine List.map_congr_left fun e he => ?_
        have hne : e.1 ≠ n := by
          rintro rfl
          exact hnot (List.mem_map.mpr ⟨e, he, rfl⟩)
        simp [hne]
      simp [setField, hkeep]
    · have hmem : name ∈ rest.map Prod.fst := by
        rcases List.mem_cons.mp h with heq | h
        · exact absurd heq.symm hn
        · exact h
      simp [setField, hn, ih hrest hmem]

theorem lookup_replaceFields (given : String → Option Data) (fields : List (String × Data))
    (name : String) :
    (replaceFields given fields).lookup name =
      (fields.lookup name).map fun d => (given name).getD d := by
  induction fields with
  | nil => rfl
  | cons e rest ih =>
    obtain ⟨n, d⟩ := e
    simp only [replaceFields, List.map_cons, List.lookup_cons] at ih ⊢
    by_cases h : name = n
    · simp [h]
    · simp only [beq_false_of_ne h]
      exact ih

namespace Record

theorem setAll_cons (r : Record) (name : String) (d : Data) (rest : List (String × Data)) :
    r.setAll ((name, d) :: rest) = (r.set name d).setAll rest := rfl

/-- Setting persisted fields one after the other replaces those that are given. -/
theorem setAll_eq {changes : List (String × Data)} (hchanges : (changes.map Prod.fst).Nodup) :
    ∀ r : Record, (r.fields.map Prod.fst).Nodup →
      (∀ c ∈ changes, c.1 ∈ r.fields.map Prod.fst ∧ r.transient.lookup c.1 = none) →
      r.setAll changes = { r with fields := replaceFields (changes.lookup ·) r.fields } := by
  induction changes with
  | nil => simp [setAll, replaceFields]
  | cons c rest ih =>
    intro r hnames hfields
    obtain ⟨name, d⟩ := c
    obtain ⟨hnot, hrest⟩ := List.nodup_cons.mp hchanges
    obtain ⟨hmem, hnone⟩ := hfields (name, d) (List.mem_cons_self ..)
    have hset : r.set name d = { r with
        fields := r.fields.map fun e => (e.1, if e.1 = name then d else e.2) } := by
      simp only [set, hnone, Option.isSome_none, Bool.false_eq_true, if_false,
        setField_eq_map hnames hmem]
    have hkeep : (r.fields.map fun e => (e.1, if e.1 = name then d else e.2)).map Prod.fst =
        r.fields.map Prod.fst := by simp [Function.comp_def]
    rw [setAll_cons, hset, ih hrest _ (hkeep.symm ▸ hnames)
      (fun c hc => hkeep.symm ▸ hfields c (List.mem_cons_of_mem _ hc))]
    have hlater : rest.lookup name = none := List.lookup_eq_none_iff.mpr fun e he => by
      simpa using fun heq => hnot (List.mem_map.mpr ⟨e, he, heq.symm⟩)
    simp only [replaceFields, List.map_map, mk.injEq, and_true]
    refine List.map_congr_left fun e _ => ?_
    by_cases hn : e.1 = name
    · simp [hn, hlater]
    · simp [List.lookup_cons, beq_false_of_ne hn, hn]

end Record

namespace Model

variable {m : Model} {r : Record}

theorem lookup_transient (hm : m.Sound) (htransient : r.transient = m.defaults) {name : String}
    (hname : name ∈ m.fields.map ModelField.name) : r.transient.lookup name = none := by
  rw [List.lookup_eq_none_iff, htransient]
  intro e he
  obtain ⟨g, hg, rfl⟩ := List.mem_map.mp he
  have hne : name ≠ g.name := fun heq => hm.transient g hg (heq ▸ hname)
  simpa using hne

/-- The record with the given fields, of one that was read. -/
theorem setAll_changes (hm : m.Sound) (hform : m.form = .fields) (hr : m.Admits r)
    (htransient : r.transient = m.defaults) {changes : List (String × Data)}
    (hchanges : m.Changes changes) :
    r.setAll changes = { r with fields := replaceFields (changes.lookup ·) r.fields } := by
  have hnames := names_of_admits hr hform
  refine Record.setAll_eq hchanges.names_nodup r (hnames ▸ hm.names_nodup) fun c hc => ?_
  exact ⟨hnames ▸ hchanges.persisted c hc,
    lookup_transient hm htransient (hchanges.persisted c hc)⟩

end Model

/-- Under a name is stored what the field of the name encodes as. -/
theorem get_of_encodeFields {fields : List (String × Data)} {row : Values}
    (h : encodeFields fields = .ok row) (name : String) :
    row.get? name = (fields.lookup name).bind fun d => d.encode.toOption := by
  induction fields generalizing row with
  | nil =>
    cases h
    rfl
  | cons e rest ih =>
    obtain ⟨n, d⟩ := e
    obtain ⟨v, hv, h⟩ := bind_eq_ok.mp h
    obtain ⟨row', hrow', h⟩ := bind_eq_ok.mp h
    cases h
    by_cases hn : name = n
    · subst hn
      simp [Values.get?, hv, Except.toOption]
    · have hrest := ih hrow'
      simp only [Values.get?, List.lookup_cons, beq_false_of_ne hn] at hrest ⊢
      exact hrest

/-- A row with changed fields: it holds the values given, under the names of the model. -/
structure RowChanged (m : Model) (given : String → Option Data) (new : Values) : Prop where
  given_stored : ∀ f ∈ m.fields, ∀ d, given f.name = some d →
    ∃ v, d.stored = .ok v ∧ new.get? f.name = some v
  names : new.keys = m.fields.map ModelField.name

theorem encode_of_mem {fields : List (String × Data)} {row : Values}
    (h : encodeFields fields = .ok row) {e : String × Data} (he : e ∈ fields) :
    ∃ v, e.2.encode = .ok v := by
  induction fields generalizing row with
  | nil => exact absurd he List.not_mem_nil
  | cons first rest ih =>
    obtain ⟨v, hv, h⟩ := bind_eq_ok.mp h
    obtain ⟨row', hrow', h⟩ := bind_eq_ok.mp h
    rcases List.mem_cons.mp he with rfl | he
    · exact ⟨v, hv⟩
    · exact ih hrow' he

/-- A row changes just in the entries of the fields that were given. -/
theorem rowChanged_of_replaceFields {m : Model} {r : Record} {given : String → Option Data}
    {new : Values} (hr : m.Admits r) (hform : m.form = .fields)
    (hnew : encodeFields (replaceFields given r.fields) = .ok new) : RowChanged m given new := by
  have hnames := Model.names_of_admits hr hform
  have hlookup (f : ModelField) (hf : f ∈ m.fields) : ∃ d, r.fields.lookup f.name = some d := by
    have hmem : f.name ∈ r.fields.map Prod.fst := hnames ▸ List.mem_map_of_mem hf
    obtain ⟨e, he, hname⟩ := List.mem_map.mp hmem
    refine Option.isSome_iff_exists.mp (List.lookup_isSome_iff.mpr ⟨e, he, ?_⟩)
    simp [hname]
  refine ⟨fun f hf d hd => ?_, ?_⟩
  · obtain ⟨d', hd'⟩ := hlookup f hf
    have hreplaced : (replaceFields given r.fields).lookup f.name = some d := by
      rw [lookup_replaceFields, hd', hd]
      rfl
    obtain ⟨v, hv⟩ := encode_of_mem hnew (mem_of_lookup hreplaced)
    have hv : d.encode = .ok v := hv
    refine ⟨v, by simp [Data.stored, hv], ?_⟩
    rw [get_of_encodeFields hnew, hreplaced]
    simp [hv, Except.toOption]
  · rw [Values.keys, keys_of_encodeFields hnew, ← hnames, replaceFields, List.map_map]
    rfl

/-- A field that is not given keeps its stored value. -/
theorem get_of_replaceFields {given : String → Option Data} {fields : List (String × Data)}
    {old new : Values} (hold : encodeFields fields = .ok old)
    (hnew : encodeFields (replaceFields given fields) = .ok new) {name : String}
    (h : given name = none) : new.get? name = old.get? name := by
  rw [get_of_encodeFields hnew, get_of_encodeFields hold, lookup_replaceFields, h]
  simp

end RecordStore
