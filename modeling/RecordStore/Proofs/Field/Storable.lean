import RecordStore.Proofs.Field.KeyText
import RecordStore.Proofs.Model.Records

/-!
What is read can be stored. An integer that was read is in the range that can be stored, and the
keys of a map that was read have texts where their type is one of texts, so a record that was read
has stored values again.
-/
namespace RecordStore

namespace Data

/-- Whether a value has a stored form. -/
def Storable (d : Data) : Prop := ∃ v, d.encode = .ok v

theorem storable_presentIn {n : Nat} {d : Data} (h : d.Storable) : (presentIn n d).Storable := by
  unfold Storable
  rw [encode_presentIn]
  exact h

theorem storable_within {t : FieldType} {read : FieldType → Except CodecError Data} {d : Data}
    (h : within t read = .ok d) (hread : ∀ e, read t.peel.2 = .ok e → e.Storable) :
    d.Storable := by
  obtain ⟨e, he, rfl⟩ := map_eq_ok.mp h
  exact storable_presentIn (hread e he)

theorem storable_list {items : List Data} (h : ∀ d ∈ items, d.Storable) :
    (Data.list items).Storable := by
  have hitems : ∃ vs, encodeItems items = .ok vs := by
    induction items with
    | nil => exact ⟨[], rfl⟩
    | cons d rest ih =>
      obtain ⟨⟨v, hv⟩, hrest⟩ := List.forall_mem_cons.mp h
      obtain ⟨vs, hvs⟩ := ih hrest
      exact ⟨v :: vs, by rw [encodeItems, hv, hvs]; rfl⟩
  obtain ⟨vs, hvs⟩ := hitems
  exact ⟨.array vs, by rw [encode, hvs]; rfl⟩

theorem storable_map {entries : List (Data × Data)}
    (hkeys : ∀ k ∈ entries.map Prod.fst, ∃ key, k.keyText = .ok key)
    (hvalues : ∀ d ∈ entries.map Prod.snd, d.Storable) : (Data.map entries).Storable := by
  have hentries : ∃ vs, encodeEntries entries = .ok vs := by
    induction entries with
    | nil => exact ⟨[], rfl⟩
    | cons e rest ih =>
      obtain ⟨k, d⟩ := e
      obtain ⟨⟨key, hkey⟩, hrestKeys⟩ := List.forall_mem_cons.mp hkeys
      obtain ⟨⟨v, hv⟩, hrestValues⟩ := List.forall_mem_cons.mp hvalues
      obtain ⟨vs, hvs⟩ := ih hrestKeys hrestValues
      have hkey : k.keyText = .ok key := hkey
      have hv : d.encode = .ok v := hv
      exact ⟨(key, v) :: vs, by rw [encodeEntries, hkey, hv, hvs]; rfl⟩
  obtain ⟨vs, hvs⟩ := hentries
  exact ⟨.object vs, by rw [encode, hvs]; rfl⟩

theorem exists_encodeFields {fields : List (String × Data)} (h : ∀ e ∈ fields, e.2.Storable) :
    ∃ values, encodeFields fields = .ok values := by
  induction fields with
  | nil => exact ⟨[], rfl⟩
  | cons e rest ih =>
    obtain ⟨⟨v, hv⟩, hrest⟩ := List.forall_mem_cons.mp h
    obtain ⟨vs, hvs⟩ := ih hrest
    exact ⟨(e.1, v) :: vs, by rw [encodeFields, hv, hvs]; rfl⟩

theorem storable_struct {fields : List (String × Data)} (h : ∀ e ∈ fields, e.2.Storable) :
    (Data.struct fields).Storable := by
  obtain ⟨vs, hvs⟩ := exists_encodeFields h
  exact ⟨.object vs, by rw [encode, hvs]; rfl⟩

theorem storable_setOf {items : List Data} (h : ∀ d ∈ items, d.Storable) :
    (setOf items).Storable := by
  refine storable_list fun d hd => h d ?_
  exact (mem_foldl_insertItem items [] hd).resolve_left List.not_mem_nil

theorem storable_mapOf {entries : List (Data × Data)}
    (hkeys : ∀ k ∈ entries.map Prod.fst, ∃ key, k.keyText = .ok key)
    (hvalues : ∀ d ∈ entries.map Prod.snd, d.Storable) : (mapOf entries).Storable := by
  apply storable_map
  · intro k hk
    obtain ⟨e, he, rfl⟩ := List.mem_map.mp hk
    exact hkeys _ ((mem_foldl_insertEntry entries [] he).1.resolve_left List.not_mem_nil)
  · intro d hd
    obtain ⟨e, he, rfl⟩ := List.mem_map.mp hd
    exact hvalues _ ((mem_foldl_insertEntry entries [] he).2.resolve_left List.not_mem_nil)

theorem hasTextKeys_peel {t : FieldType} (h : t.hasTextKeys) : t.peel.2.hasTextKeys := by
  fun_induction FieldType.peel t with
  | case1 t ih => exact ih h
  | case2 t ih => exact ih h
  | case3 t => exact h

theorem haveTextKeys_replicate {t : FieldType} (h : t.hasTextKeys) (n : Nat) :
    FieldType.haveTextKeys (List.replicate n t) := by
  induction n with
  | zero => rfl
  | succ n ih => simp [List.replicate_succ, FieldType.haveTextKeys, h, ih]

theorem storable_ofNumber {v : Json} {t : FieldType} {d : Data} (hv : v.Proper)
    (h : ofNumber v t = .ok d) : d.Storable := by
  unfold ofNumber at h
  split at h
  · next n k =>
    split at h
    · obtain rfl := Except.ok.inj h
      have hn : Json.isStorable n = true := hv
      exact ⟨.integer n, by rw [encode, integerJson, if_pos hn]⟩
    · cases h
  · obtain rfl := Except.ok.inj h
    exact ⟨_, rfl⟩
  · obtain rfl := Except.ok.inj h
    exact ⟨_, rfl⟩
  · obtain rfl := Except.ok.inj h
    exact ⟨_, rfl⟩
  · cases h

theorem storable_ofText {s : String} {t : FieldType} {d : Data} (h : ofText s t = .ok d) :
    d.Storable := by
  unfold ofText at h
  split at h
  · obtain rfl := Except.ok.inj h
    exact ⟨_, rfl⟩
  · obtain rfl := Except.ok.inj h
    exact ⟨_, rfl⟩
  · split at h
    · obtain rfl := Except.ok.inj h
      exact ⟨_, rfl⟩
    · cases h
  · split at h
    · obtain rfl := Except.ok.inj h
      exact ⟨_, rfl⟩
    · cases h
  · split at h
    · obtain rfl := Except.ok.inj h
      exact ⟨_, rfl⟩
    · cases h
    · cases h
  · cases h

theorem storable_ofNull {t : FieldType} {d : Data} (h : ofNull t = .ok d) : d.Storable := by
  unfold ofNull at h
  split at h
  · obtain rfl := Except.ok.inj h
    exact ⟨_, rfl⟩
  · obtain rfl := Except.ok.inj h
    exact ⟨_, rfl⟩
  · cases h

/-- What stands for a part that is left out can be stored. -/
theorem storable_default {n : StructName} {f : StructField} {d : Data} (hf : f ∈ n.fields)
    (h : f.default? = some d) : d.Storable := by
  cases n <;> simp only [StructName.fields, List.mem_cons, List.not_mem_nil, or_false] at hf
  · rcases hf with rfl | rfl <;> cases h
    exact ⟨_, rfl⟩
  · rcases hf with rfl | rfl | rfl <;> cases h <;> exact ⟨_, rfl⟩
  · rcases hf with rfl | rfl | rfl | rfl <;> cases h
  · rcases hf with rfl | rfl | rfl <;> cases h

theorem storable_absent {n : StructName} {f : StructField} {d : Data} (hf : f ∈ n.fields)
    (h : f.absent? = some d) : d.Storable := by
  unfold StructField.absent? at h
  split at h
  · next e he =>
    cases h
    exact storable_default hf he
  · split at h
    · cases h
    · cases h
      exact ⟨_, rfl⟩

theorem storable_of_forall₂ {parts : List (String × Data)} {fields : List StructField}
    (h : List.Forall₂ (fun p f => p.1 = f.name ∧ p.2.Storable) parts fields) :
    ∀ p ∈ parts, p.2.Storable := by
  induction h with
  | nil => exact List.forall_mem_nil _
  | cons hhead _ ih => exact List.forall_mem_cons.mpr ⟨hhead.2, ih⟩

mutual

/-- A value that was read can be stored, if all keys in it have texts. -/
theorem storable_decode (v : Json) (t : FieldType) (d : Data) (hv : v.Proper) (ht : t.hasTextKeys)
    (h : decode v t = .ok d) : d.Storable := by
  have hcore := hasTextKeys_peel ht
  cases v with
  | null =>
    simp only [decode] at h
    split at h
    · exact storable_ofNull h
    · obtain rfl := Except.ok.inj h
      exact ⟨_, rfl⟩
  | bool b =>
    simp only [decode] at h
    refine storable_within h fun e he => ?_
    split at he <;> cases he <;> exact ⟨_, rfl⟩
  | integer n =>
    simp only [decode] at h
    exact storable_within h fun e he => storable_ofNumber hv he
  | float x =>
    simp only [decode] at h
    exact storable_within h fun e he => storable_ofNumber hv he
  | string s =>
    simp only [decode] at h
    exact storable_within h fun e he => storable_ofText he
  | array items =>
    simp only [decode] at h
    refine storable_within h fun e he => ?_
    split at he
    · next u hu =>
      rw [hu] at hcore
      obtain ⟨ds, hds, rfl⟩ := map_eq_ok.mp he
      exact storable_list (storable_decodeAll items u ds hv hcore hds)
    · next u hu =>
      rw [hu] at hcore
      obtain ⟨ds, hds, rfl⟩ := map_eq_ok.mp he
      exact storable_setOf (storable_decodeAll items u ds hv hcore hds)
    · next u n hu =>
      rw [hu] at hcore
      obtain ⟨ds, hds, rfl⟩ := map_eq_ok.mp he
      have hitem : u.hasTextKeys := hcore
      exact storable_list (storable_decodeEach items _ _ _ ds hv (haveTextKeys_replicate hitem n) hds)
    · next ts hts =>
      rw [hts] at hcore
      obtain ⟨ds, hds, rfl⟩ := map_eq_ok.mp he
      exact storable_list (storable_decodeEach items ts _ _ ds hv hcore hds)
    · next n _ =>
      obtain ⟨ds, hds, rfl⟩ := map_eq_ok.mp he
      exact storable_struct (storable_decodeParts items n n.fields _ _ ds hv (fun f hf => hf) hds)
    · cases he
      exact ⟨_, rfl⟩
    · cases he
  | object entries =>
    simp only [decode] at h
    refine storable_within h fun e he => ?_
    split at he
    · next k u hk =>
      rw [hk] at hcore
      obtain ⟨ds, hds, rfl⟩ := map_eq_ok.mp he
      obtain ⟨hkeys, hvalues⟩ := storable_decodeEntries entries k u ds hv.2 hcore hds
      exact storable_mapOf hkeys hvalues
    · next n _ =>
      obtain ⟨parts, hparts, he⟩ := bind_eq_ok.mp he
      obtain ⟨whole, hwhole, rfl⟩ := map_eq_ok.mp he
      have hread := storable_decodeFields entries n parts hv.2 hparts
      exact storable_struct <| storable_of_forall₂ <| forall₂_of_completeStruct hread
        (fun f hf => hf) (fun f hf d hd => storable_absent hf hd) hwhole
    · next n _ => exact storable_decodeVariant entries n e hv.2 he
    · cases he
      exact ⟨_, rfl⟩
    · cases he

theorem storable_decodeAll (items : List Json) (t : FieldType) (ds : List Data)
    (hv : Json.ProperItems items) (ht : t.hasTextKeys) (h : decodeAll items t = .ok ds) :
    ∀ d ∈ ds, d.Storable := by
  cases items with
  | nil =>
    cases h
    exact List.forall_mem_nil _
  | cons v rest =>
    obtain ⟨d, hd, h⟩ := bind_eq_ok.mp h
    obtain ⟨es, hes, h⟩ := bind_eq_ok.mp h
    cases h
    exact List.forall_mem_cons.mpr ⟨storable_decode v t d hv.1 ht hd,
      storable_decodeAll rest t es hv.2 ht hes⟩

theorem storable_decodeEach (items : List Json) (ts : List FieldType) (short long : CodecError)
    (ds : List Data) (hv : Json.ProperItems items) (ht : FieldType.haveTextKeys ts)
    (h : decodeEach items ts short long = .ok ds) : ∀ d ∈ ds, d.Storable := by
  cases items with
  | nil =>
    cases ts with
    | nil =>
      cases h
      exact List.forall_mem_nil _
    | cons t ts => cases h
  | cons v rest =>
    cases ts with
    | nil => cases h
    | cons t ts =>
      have hts : t.hasTextKeys ∧ FieldType.haveTextKeys ts := by
        simpa [FieldType.haveTextKeys] using ht
      obtain ⟨d, hd, h⟩ := bind_eq_ok.mp h
      obtain ⟨es, hes, h⟩ := bind_eq_ok.mp h
      cases h
      exact List.forall_mem_cons.mpr ⟨storable_decode v t d hv.1 hts.1 hd,
        storable_decodeEach rest ts short long es hv.2 hts.2 hes⟩

theorem storable_decodeParts (items : List Json) (n : StructName) (fields : List StructField)
    (short long : CodecError) (ds : List (String × Data)) (hv : Json.ProperItems items)
    (hmem : ∀ f ∈ fields, f ∈ n.fields) (h : decodeParts items fields short long = .ok ds) :
    ∀ p ∈ ds, p.2.Storable := by
  cases items with
  | nil =>
    exact storable_of_forall₂ <| forall₂_of_defaultParts (P := fun _ d => d.Storable)
      (fun f hf d hd => storable_default (hmem f hf) hd) h
  | cons v rest =>
    cases fields with
    | nil => cases h
    | cons f fields =>
      obtain ⟨hf, hfields⟩ := List.forall_mem_cons.mp hmem
      obtain ⟨d, hd, h⟩ := bind_eq_ok.mp h
      obtain ⟨es, hes, h⟩ := bind_eq_ok.mp h
      cases h
      have hkeys := FieldType.hasTextKeys_of_isStable _ (FieldType.isStable_structField hf)
      exact List.forall_mem_cons.mpr ⟨storable_decode v f.type d hv.1 hkeys hd,
        storable_decodeParts rest n fields short long es hv.2 hfields hes⟩

/-- A map that is read has keys with texts, since their type is one of texts. -/
theorem storable_decodeEntries (entries : List (String × Json)) (k t : FieldType)
    (ds : List (Data × Data)) (hv : Json.ProperEntries entries)
    (ht : (FieldType.map k t).hasTextKeys) (h : decodeEntries entries k t = .ok ds) :
    (∀ key ∈ ds.map Prod.fst, ∃ text, key.keyText = .ok text) ∧
      ∀ d ∈ ds.map Prod.snd, d.Storable := by
  cases entries with
  | nil =>
    cases h
    exact ⟨List.forall_mem_nil _, List.forall_mem_nil _⟩
  | cons e rest =>
    obtain ⟨key, v⟩ := e
    obtain ⟨key', hkey, h⟩ := bind_eq_ok.mp h
    obtain ⟨d, hd, h⟩ := bind_eq_ok.mp h
    obtain ⟨es, hes, h⟩ := bind_eq_ok.mp h
    cases h
    obtain ⟨htext, hvalue⟩ : k.isTextKey ∧ t.hasTextKeys := by
      simpa [FieldType.hasTextKeys] using ht
    have hone := storable_decode v t d hv.1 hvalue hd
    obtain ⟨hkeys, hvalues⟩ := storable_decodeEntries rest k t es hv.2 ht hes
    exact ⟨List.forall_mem_cons.mpr ⟨exists_keyText htext hkey, hkeys⟩,
      List.forall_mem_cons.mpr ⟨hone, hvalues⟩⟩

theorem storable_decodeFields (entries : List (String × Json)) (n : StructName)
    (parts : List (String × Data)) (hv : Json.ProperEntries entries)
    (h : decodeFields entries n.fields = .ok parts) :
    ReadParts (fun _ d => d.Storable) parts n.fields := by
  cases entries with
  | nil =>
    cases h
    exact List.forall_mem_nil _
  | cons e rest =>
    obtain ⟨key, v⟩ := e
    simp only [decodeFields] at h
    split at h
    · exact storable_decodeFields rest n parts hv.2 h
    · next f hf =>
      obtain ⟨d, hd, h⟩ := bind_eq_ok.mp h
      obtain ⟨es, hes, h⟩ := bind_eq_ok.mp h
      cases h
      have hkeys := FieldType.hasTextKeys_of_isStable _
        (FieldType.isStable_structField (List.mem_of_find?_eq_some hf))
      exact List.forall_mem_cons.mpr ⟨⟨f, hf, storable_decode v f.type d hv.1 hkeys hd⟩,
        storable_decodeFields rest n es hv.2 hes⟩

theorem storable_decodeVariant (entries : List (String × Json)) (n : EnumName) (d : Data)
    (hv : Json.ProperEntries entries) (h : decodeVariant entries n = .ok d) : d.Storable := by
  match entries with
  | [] => cases h
  | _ :: _ :: _ => cases h
  | [(name, v)] =>
    simp only [decodeVariant] at h
    split at h
    · cases h
    · obtain ⟨_, -, rfl⟩ := map_eq_ok.mp h
      exact ⟨_, rfl⟩
    · next t hsome =>
      obtain ⟨e, he, rfl⟩ := map_eq_ok.mp h
      obtain ⟨w, hw⟩ := storable_decode v t e hv.1
        (FieldType.hasTextKeys_of_isStable t (isStable_variant hsome)) he
      exact ⟨.object [(name, w)], by rw [encode, hw]; rfl⟩

end

end Data

namespace Model

open Data

theorem storable_readFields {typeName : String} {values : Values} {fs : List ModelField}
    (hproper : values.Proper) (hstable : ∀ f ∈ fs, f.type.isStable)
    {fields : List (String × Data)} (h : readFields typeName values fs = .ok fields) :
    ∀ e ∈ fields, e.2.Storable := by
  induction fs generalizing fields with
  | nil =>
    cases h
    exact List.forall_mem_nil _
  | cons f fs ih =>
    obtain ⟨hf, hfs⟩ := List.forall_mem_cons.mp hstable
    obtain ⟨d, hd, h⟩ := bind_eq_ok.mp h
    obtain ⟨rest, hrest, h⟩ := bind_eq_ok.mp h
    cases h
    refine List.forall_mem_cons.mpr ⟨?_, ih hfs hrest⟩
    exact storable_decode _ f.type d (hproper.get f.name)
      (FieldType.hasTextKeys_of_isStable _ hf) (field_eq_ok.mp hd)

/-- A record that was read has stored values. -/
theorem exists_toValues {m : Model} (hm : m.Sound) {row : Values} (hproper : row.Proper)
    {r : Record} (h : m.fromValues row = .ok r) : ∃ values, r.toValues = .ok values := by
  unfold fromValues at h
  cases hform : m.form with
  | verbatim =>
    simp only [hform] at h
    cases h
    exact ⟨row, Record.toValues_eq_ok.mpr (encodeFields_json row)⟩
  | fields =>
    simp only [hform] at h
    obtain ⟨fields, hfields, rfl⟩ := map_eq_ok.mp h
    obtain ⟨values, hvalues⟩ :=
      exists_encodeFields (storable_readFields hproper hm.isStable hfields)
    exact ⟨values, Record.toValues_eq_ok.mpr hvalues⟩

end Model

end RecordStore
