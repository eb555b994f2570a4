import RecordStore.Proofs.Field.Storable

/-!
The stored form of a value that was read is one from which the value is read again. A value may be
read from many forms: an identifier has several spellings, a struct may be a sequence, members of a
set may repeat. Storing leaves one of them. Floating-point numbers are left out, since one may have
another precision where it is read.
-/
namespace RecordStore

namespace FieldType

mutual

/-- Types built without floating-point numbers. -/
def isFloatless : FieldType → Bool
  | .float _ => false
  | .option t | .box t | .list t | .array t _ | .set t => t.isFloatless
  | .tuple ts => areFloatless ts
  | .map k t => k.isFloatless && t.isFloatless
  | _ => true

def areFloatless : List FieldType → Bool
  | [] => true
  | t :: rest => t.isFloatless && areFloatless rest

end

theorem isFloatless_peel {t : FieldType} (h : t.isFloatless) : t.peel.2.isFloatless := by
  fun_induction FieldType.peel t with
  | case1 t ih => exact ih h
  | case2 t ih => exact ih h
  | case3 t => exact h

theorem areFloatless_replicate {t : FieldType} (h : t.isFloatless) (n : Nat) :
    areFloatless (List.replicate n t) := by
  induction n with
  | zero => rfl
  | succ n ih => simp [List.replicate_succ, areFloatless, h, ih]

theorem isFloatless_structField {n : StructName} {f : StructField} (h : f ∈ n.fields) :
    f.type.isFloatless := by
  have hall : ∀ n : StructName, ∀ f ∈ n.fields, f.type.isFloatless := by
    intro n
    cases n <;> decide
  exact hall n f h

theorem isFloatless_variant {n : EnumName} {name : String} {t : FieldType}
    (h : n.variants.lookup name = some (some t)) : t.isFloatless := by
  have hall : ∀ n : EnumName, ∀ e ∈ n.variants, e.2.all FieldType.isFloatless := by
    intro n
    cases n
    decide
  exact hall n _ (mem_of_lookup h)

end FieldType

namespace Data

/-- Whether the stored form of a value, if it has one, is read as the value. -/
def Kept (d : Data) (t : FieldType) : Prop := ∀ w, d.encode = .ok w → decode w t = .ok d

/-- A value that was read and that is kept. What was read from something other than null is not
stored as null. -/
structure IsKept (v : Json) (t : FieldType) (d : Data) : Prop where
  kept : Kept d t
  notNull : v ≠ .null → d.encode ≠ .ok .null

section

variable {t u : FieldType}

theorem decodeAll_of_kept {items : List Data} (h : ∀ d ∈ items, Kept d t) {ws : List Json}
    (hws : encodeItems items = .ok ws) : decodeAll ws t = .ok items := by
  induction items generalizing ws with
  | nil =>
    cases hws
    rfl
  | cons d rest ih =>
    obtain ⟨hd, hrest⟩ := List.forall_mem_cons.mp h
    obtain ⟨w, hw, hws⟩ := bind_eq_ok.mp hws
    obtain ⟨ws', hws', hws⟩ := bind_eq_ok.mp hws
    cases hws
    rw [decodeAll, hd w hw, ih hrest hws']
    rfl

theorem decodeEach_of_kept {items : List Data} {ts : List FieldType}
    (h : List.Forall₂ Kept items ts) {ws : List Json} (hws : encodeItems items = .ok ws)
    (short long : CodecError) : decodeEach ws ts short long = .ok items := by
  induction h generalizing ws with
  | nil =>
    cases hws
    rfl
  | cons hd _ ih =>
    obtain ⟨w, hw, hws⟩ := bind_eq_ok.mp hws
    obtain ⟨ws', hws', hws⟩ := bind_eq_ok.mp hws
    cases hws
    rw [decodeEach, hd w hw, ih hws']
    rfl

theorem decodeEntries_of_kept {entries : List (Data × Data)} (hkeys : ∀ e ∈ entries, KeyKept e.1 t)
    (hvalues : ∀ e ∈ entries, Kept e.2 u) {ws : List (String × Json)}
    (hws : encodeEntries entries = .ok ws) : decodeEntries ws t u = .ok entries := by
  induction entries generalizing ws with
  | nil =>
    cases hws
    rfl
  | cons e rest ih =>
    obtain ⟨hkey, hkeys⟩ := List.forall_mem_cons.mp hkeys
    obtain ⟨hvalue, hvalues⟩ := List.forall_mem_cons.mp hvalues
    obtain ⟨key, htext, hws⟩ := bind_eq_ok.mp hws
    obtain ⟨w, hw, hws⟩ := bind_eq_ok.mp hws
    obtain ⟨ws', hws', hws⟩ := bind_eq_ok.mp hws
    cases hws
    rw [decodeEntries, hkey key htext, hvalue w hw, ih hkeys hvalues hws']
    rfl

end

/-- Parts of a struct in its order, each kept as one of the type that the struct gives it. -/
def KeptParts (parts : List (String × Data)) (fields : List StructField) : Prop :=
  List.Forall₂ (fun p f => p.1 = f.name ∧ Kept p.2 f.type) parts fields

theorem KeptParts.names {parts : List (String × Data)} {fields : List StructField}
    (h : KeptParts parts fields) : parts.map Prod.fst = fields.map StructField.name := by
  rw [← List.forall₂_eq_eq_eq, List.forall₂_map_left_iff, List.forall₂_map_right_iff]
  exact h.imp fun _ _ hp => hp.1

theorem decodeFields_of_kept {n : StructName} {parts : List (String × Data)}
    {fields : List StructField} (hmem : ∀ f ∈ fields, f ∈ n.fields) (h : KeptParts parts fields)
    {ws : Values} (hws : encodeFields parts = .ok ws) : decodeFields ws n.fields = .ok parts := by
  induction h generalizing ws with
  | nil =>
    cases hws
    rfl
  | @cons p f parts fields hhead _ ih =>
    obtain ⟨hf, hfields⟩ := List.forall_mem_cons.mp hmem
    obtain ⟨name, d⟩ := p
    obtain ⟨rfl, hd⟩ := hhead
    obtain ⟨w, hw, hws⟩ := bind_eq_ok.mp hws
    obtain ⟨ws', hws', hws⟩ := bind_eq_ok.mp hws
    cases hws
    simp only [decodeFields, find_structField hf]
    rw [hd w hw, ih hfields hws']
    rfl

theorem KeptParts.isKept {v : Json} {n : StructName} {parts : List (String × Data)}
    (h : KeptParts parts n.fields) : IsKept v (.struct n) (.struct parts) := by
  refine ⟨fun w hw => ?_, fun _ => encode_struct_ne_null _⟩
  obtain ⟨ws, hws, rfl⟩ := map_eq_ok.mp hw
  have hnodup : (parts.map Prod.fst).Nodup := h.names ▸ names_nodup n
  rw [decode_struct, decodeFields_of_kept (fun f hf => hf) h hws]
  show (Data.struct <$> completeStruct parts n.fields) = _
  rw [completeStruct_of_names hnodup n.fields parts h.names fun p hp => hp]
  rfl

theorem isKept_list {v : Json} {t : FieldType} {items : List Data} (h : ∀ d ∈ items, Kept d t) :
    IsKept v (.list t) (.list items) := by
  refine ⟨fun w hw => ?_, fun _ => encode_list_ne_null _⟩
  obtain ⟨ws, hws, rfl⟩ := map_eq_ok.mp hw
  rw [decode_list, decodeAll_of_kept h hws]
  rfl

/-- The members of a set are some of the items that were read, in strict order. -/
theorem isKept_setOf {v : Json} {t : FieldType} {items : List Data} (h : ∀ d ∈ items, Kept d t) :
    IsKept v (.set t) (setOf items) := by
  refine ⟨fun w hw => ?_, fun _ => encode_list_ne_null _⟩
  have hmembers : ∀ d ∈ items.foldl (fun s d => insertItem d s) [], Kept d t := fun d hd =>
    h d ((mem_foldl_insertItem items [] hd).resolve_left List.not_mem_nil)
  obtain ⟨ws, hws, rfl⟩ := map_eq_ok.mp hw
  rw [decode_set, decodeAll_of_kept hmembers hws]
  exact congrArg Except.ok (setOf_of_ascending (foldl_insertItem_ascending items [] .nil))

/-- The entries of a map have keys and values that were read, the keys in strict order. -/
theorem isKept_mapOf {v : Json} {t u : FieldType} {entries : List (Data × Data)}
    (hkeys : ∀ k ∈ entries.map Prod.fst, KeyKept k t)
    (hvalues : ∀ d ∈ entries.map Prod.snd, Kept d u) : IsKept v (.map t u) (mapOf entries) := by
  refine ⟨fun w hw => ?_, fun _ => encode_map_ne_null _⟩
  have hmem : ∀ e ∈ entries.foldl (fun m e => insertEntry e.1 e.2 m) [],
      KeyKept e.1 t ∧ Kept e.2 u := by
    intro e he
    obtain ⟨hkey, hvalue⟩ := mem_foldl_insertEntry entries [] he
    exact ⟨hkeys _ (hkey.resolve_left List.not_mem_nil),
      hvalues _ (hvalue.resolve_left List.not_mem_nil)⟩
  obtain ⟨ws, hws, rfl⟩ := map_eq_ok.mp hw
  rw [decode_map, decodeEntries_of_kept (fun e he => (hmem e he).1) (fun e he => (hmem e he).2) hws]
  exact congrArg Except.ok (mapOf_of_ascending (foldl_insertEntry_ascending entries [] .nil))

/-- What is not null is read inside the options around a type. -/
theorem decode_peel {v : Json} (h : v ≠ .null) (t : FieldType) :
    decode v t = (decode v t.peel.2).map (presentIn t.peel.1) := by
  cases v with
  | null => exact absurd rfl h
  | _ =>
    simp only [decode]
    rw [within, within_plain (peel_peel t)]

/-- A value around which options are put is kept where the value inside is. -/
theorem isKept_within {v : Json} {t : FieldType} {read : FieldType → Except CodecError Data}
    {d : Data} (hv : v ≠ .null) (h : within t read = .ok d)
    (hread : ∀ e, read t.peel.2 = .ok e → IsKept v t.peel.2 e) : IsKept v t d := by
  obtain ⟨e, he, rfl⟩ := map_eq_ok.mp h
  obtain ⟨hkept, hnull⟩ := hread e he
  refine ⟨fun w hw => ?_, fun _ => ?_⟩
  · rw [encode_presentIn] at hw
    have hw' : w ≠ .null := by
      rintro rfl
      exact hnull hv hw
    rw [decode_peel hw', hkept w hw]
    rfl
  · rw [encode_presentIn]
    exact hnull hv

theorem isKept_null {t : FieldType} {d : Data} (h : decode .null t = .ok d) :
    IsKept .null t d := by
  refine ⟨fun w hw => ?_, fun hv => absurd rfl hv⟩
  have hencode : d.encode = .ok .null := by
    simp only [decode] at h
    split at h
    · unfold ofNull at h
      split at h <;> cases h <;> rfl
    · cases h
      rfl
  obtain rfl : w = .null := Except.ok.inj (hw.symm.trans hencode)
  exact h

theorem isKept_json {v : Json} (h : v ≠ .null) : IsKept v .json (.json v) := by
  refine ⟨fun w hw => ?_, fun _ => by simpa [encode] using h⟩
  cases hw
  exact decode_json _

/-- A number that is no fraction is kept as the type that it is read as. -/
theorem isKept_ofNumber {v : Json} {t : FieldType} {d : Data} (hnull : v ≠ .null)
    (ht : t.isFloatless) (h : ofNumber v t = .ok d) : IsKept v t d := by
  unfold ofNumber at h
  split at h
  · split at h
    · next n k hk =>
      obtain rfl := Except.ok.inj h
      exact ⟨fun w hw => (readsBack_integer hk hw).exact trivial, fun _ => encode_integer_ne_null n⟩
    · cases h
  · cases ht
  · cases ht
  · obtain rfl := Except.ok.inj h
    exact isKept_json hnull
  · cases h

theorem isKept_ofText {s : String} {t : FieldType} {d : Data} (hpeel : t.peel = (0, t))
    (h : ofText s t = .ok d) : IsKept (.string s) t d := by
  by_cases hjson : t = .json
  · subst hjson
    cases h
    exact isKept_json (by simp)
  · obtain ⟨s', -, hencode, hread⟩ := exists_text_of_ofText hjson h
    refine ⟨fun w hw => ?_, fun _ => by simp [hencode]⟩
    obtain rfl : w = .string s' := Except.ok.inj (hw.symm.trans hencode)
    rw [decode, within_plain hpeel, hread]

theorem kept_default {n : StructName} {f : StructField} {d : Data} (hf : f ∈ n.fields)
    (h : f.default? = some d) : Kept d f.type := by
  intro w hw
  cases n <;> simp only [StructName.fields, List.mem_cons, List.not_mem_nil, or_false] at hf
  · rcases hf with rfl | rfl <;> cases h
    cases hw
    rfl
  · rcases hf with rfl | rfl | rfl <;> cases h <;> cases hw <;> rfl
  · rcases hf with rfl | rfl | rfl | rfl <;> cases h
  · rcases hf with rfl | rfl | rfl <;> cases h

theorem kept_absent {n : StructName} {f : StructField} {d : Data} (hf : f ∈ n.fields)
    (h : f.absent? = some d) : Kept d f.type := by
  unfold StructField.absent? at h
  split at h
  · next e he =>
    cases h
    exact kept_default hf he
  · split at h
    · cases h
    · next hpeel =>
      cases h
      intro w hw
      cases hw
      rw [decode, if_neg hpeel]

mutual

/-- A value of a type without floating-point numbers is kept as it was read. -/
theorem isKept_decode (v : Json) (t : FieldType) (d : Data) (ht : t.isFloatless)
    (h : decode v t = .ok d) : IsKept v t d := by
  have hcore := FieldType.isFloatless_peel ht
  have hpeel := peel_peel t
  cases v with
  | null => exact isKept_null h
  | bool b =>
    simp only [decode] at h
    refine isKept_within nofun h fun e he => ?_
    split at he
    · next hbool =>
      cases he
      rw [hbool]
      refine ⟨fun w hw => ?_, fun _ => nofun⟩
      cases hw
      exact decode_bool b
    · next hjson =>
      cases he
      rw [hjson]
      exact isKept_json nofun
    · cases he
  | integer n =>
    simp only [decode] at h
    exact isKept_within nofun h fun e he => isKept_ofNumber nofun hcore he
  | float x =>
    simp only [decode] at h
    exact isKept_within nofun h fun e he => isKept_ofNumber nofun hcore he
  | string s =>
    simp only [decode] at h
    exact isKept_within nofun h fun e he => isKept_ofText hpeel he
  | array items =>
    simp only [decode] at h
    refine isKept_within nofun h fun e he => ?_
    split at he
    · next u hu =>
      rw [hu] at hcore ⊢
      obtain ⟨ds, hds, rfl⟩ := map_eq_ok.mp he
      exact isKept_list (kept_decodeAll items u ds hcore hds)
    · next u hu =>
      rw [hu] at hcore ⊢
      obtain ⟨ds, hds, rfl⟩ := map_eq_ok.mp he
      exact isKept_setOf (kept_decodeAll items u ds hcore hds)
    · next u n hu =>
      rw [hu] at hcore ⊢
      obtain ⟨ds, hds, rfl⟩ := map_eq_ok.mp he
      have hitem : u.isFloatless := hcore
      have hkept := kept_decodeEach items _ _ _ ds (FieldType.areFloatless_replicate hitem n) hds
      refine ⟨fun w hw => ?_, fun _ => encode_list_ne_null _⟩
      obtain ⟨ws, hws, rfl⟩ := map_eq_ok.mp hw
      rw [decode_array, decodeEach_of_kept hkept hws]
      rfl
    · next ts hts =>
      rw [hts] at hcore ⊢
      obtain ⟨ds, hds, rfl⟩ := map_eq_ok.mp he
      have hkept := kept_decodeEach items ts _ _ ds hcore hds
      refine ⟨fun w hw => ?_, fun _ => encode_list_ne_null _⟩
      obtain ⟨ws, hws, rfl⟩ := map_eq_ok.mp hw
      rw [decode_tuple, decodeEach_of_kept hkept hws]
      rfl
    · next n hn =>
      rw [hn]
      obtain ⟨ds, hds, rfl⟩ := map_eq_ok.mp he
      exact (keptParts_decodeParts items n n.fields _ _ ds (fun f hf => hf) hds).isKept
    · next hjson =>
      cases he
      rw [hjson]
      exact isKept_json nofun
    · cases he
  | object entries =>
    simp only [decode] at h
    refine isKept_within nofun h fun e he => ?_
    split at he
    · next k u hk =>
      rw [hk] at hcore ⊢
      obtain ⟨ds, hds, rfl⟩ := map_eq_ok.mp he
      obtain ⟨hkeys, hvalues⟩ := kept_decodeEntries entries k u ds hcore hds
      exact isKept_mapOf hkeys hvalues
    · next n hn =>
      rw [hn]
      obtain ⟨parts, hparts, he⟩ := bind_eq_ok.mp he
      obtain ⟨whole, hwhole, rfl⟩ := map_eq_ok.mp he
      have hread := kept_decodeFields entries n parts hparts
      have hkept : KeptParts whole n.fields := forall₂_of_completeStruct hread
        (fun f hf => hf) (fun f hf d hd => kept_absent hf hd) hwhole
      exact hkept.isKept
    · next n hn =>
      rw [hn]
      exact isKept_decodeVariant entries n e he
    · next hjson =>
      cases he
      rw [hjson]
      exact isKept_json nofun
    · cases he

theorem kept_decodeAll (items : List Json) (t : FieldType) (ds : List Data) (ht : t.isFloatless)
    (h : decodeAll items t = .ok ds) : ∀ d ∈ ds, Kept d t := by
  cases items with
  | nil =>
    cases h
    exact List.forall_mem_nil _
  | cons v rest =>
    obtain ⟨d, hd, h⟩ := bind_eq_ok.mp h
    obtain ⟨es, hes, h⟩ := bind_eq_ok.mp h
    cases h
    exact List.forall_mem_cons.mpr
      ⟨(isKept_decode v t d ht hd).kept, kept_decodeAll rest t es ht hes⟩

theorem kept_decodeEach (items : List Json) (ts : List FieldType) (short long : CodecError)
    (ds : List Data) (ht : FieldType.areFloatless ts) (h : decodeEach items ts short long = .ok ds) :
    List.Forall₂ Kept ds ts := by
  cases items with
  | nil =>
    cases ts with
    | nil =>
      cases h
      exact .nil
    | cons t ts => cases h
  | cons v rest =>
    cases ts with
    | nil => cases h
    | cons t ts =>
      obtain ⟨htype, htypes⟩ : t.isFloatless ∧ FieldType.areFloatless ts := by
        simpa [FieldType.areFloatless] using ht
      obtain ⟨d, hd, h⟩ := bind_eq_ok.mp h
      obtain ⟨es, hes, h⟩ := bind_eq_ok.mp h
      cases h
      exact .cons (isKept_decode v t d htype hd).kept
        (kept_decodeEach rest ts short long es htypes hes)

theorem keptParts_decodeParts (items : List Json) (n : StructName) (fields : List StructField)
    (short long : CodecError) (ds : List (String × Data)) (hmem : ∀ f ∈ fields, f ∈ n.fields)
    (h : decodeParts items fields short long = .ok ds) : KeptParts ds fields := by
  cases items with
  | nil => exact forall₂_of_defaultParts (fun f hf d hd => kept_default (hmem f hf) hd) h
  | cons v rest =>
    cases fields with
    | nil => cases h
    | cons f fields =>
      obtain ⟨hf, hfields⟩ := List.forall_mem_cons.mp hmem
      obtain ⟨d, hd, h⟩ := bind_eq_ok.mp h
      obtain ⟨es, hes, h⟩ := bind_eq_ok.mp h
      cases h
      exact .cons ⟨rfl, (isKept_decode v f.type d (FieldType.isFloatless_structField hf) hd).kept⟩
        (keptParts_decodeParts rest n fields short long es hfields hes)

/-- Entries that are read are kept, with the texts of their keys. -/
theorem kept_decodeEntries (entries : List (String × Json)) (k t : FieldType)
    (ds : List (Data × Data)) (ht : (FieldType.map k t).isFloatless)
    (h : decodeEntries entries k t = .ok ds) :
    (∀ key ∈ ds.map Prod.fst, KeyKept key k) ∧ ∀ d ∈ ds.map Prod.snd, Kept d t := by
  cases entries with
  | nil =>
    cases h
    exact ⟨List.forall_mem_nil _, List.forall_mem_nil _⟩
  | cons e rest =>
    obtain ⟨key, v⟩ := e
    obtain ⟨key', hkey, h⟩ := bind_eq_ok.mp h
    obtain ⟨d, hd, h⟩ := bind_eq_ok.mp h
    obtain ⟨es, hes, h⟩ := bind_eq_ok.mp h
    cases h
    obtain ⟨hkeyType, hvalueType⟩ : k.isFloatless ∧ t.isFloatless := by
      simpa [FieldType.isFloatless] using ht
    have hfloat : ∀ p, k.peel.2 ≠ .float p := by
      intro p hp
      have hcore := FieldType.isFloatless_peel hkeyType
      rw [hp] at hcore
      cases hcore
    obtain ⟨hkeys, hvalues⟩ := kept_decodeEntries rest k t es ht hes
    exact ⟨List.forall_mem_cons.mpr ⟨keyKept_of_ofKey hfloat hkey, hkeys⟩,
      List.forall_mem_cons.mpr ⟨(isKept_decode v t d hvalueType hd).kept, hvalues⟩⟩

/-- Parts that are read in any order are kept in the order of the struct. -/
theorem kept_decodeFields (entries : List (String × Json)) (n : StructName)
    (parts : List (String × Data)) (h : decodeFields entries n.fields = .ok parts) :
    ReadParts (fun f d => Kept d f.type) parts n.fields := by
  cases entries with
  | nil =>
    cases h
    exact List.forall_mem_nil _
  | cons e rest =>
    obtain ⟨key, v⟩ := e
    simp only [decodeFields] at h
    split at h
    · exact kept_decodeFields rest n parts h
    · next f hf =>
      obtain ⟨d, hd, h⟩ := bind_eq_ok.mp h
      obtain ⟨es, hes, h⟩ := bind_eq_ok.mp h
      cases h
      have hfloatless := FieldType.isFloatless_structField (List.mem_of_find?_eq_some hf)
      exact List.forall_mem_cons.mpr ⟨⟨f, hf, (isKept_decode v f.type d hfloatless hd).kept⟩,
        kept_decodeFields rest n es hes⟩

/-- A variant is stored by its name or with its value, whichever form it was read from. -/
theorem isKept_decodeVariant (entries : List (String × Json)) (n : EnumName) (d : Data)
    (h : decodeVariant entries n = .ok d) : IsKept (.object entries) (.enum n) d := by
  match entries with
  | [] => cases h
  | _ :: _ :: _ => cases h
  | [(name, v)] =>
    simp only [decodeVariant] at h
    refine ⟨fun w hw => ?_, fun _ => ?_⟩
    · split at h
      · cases h
      · next hnone =>
        obtain ⟨_, -, rfl⟩ := map_eq_ok.mp h
        cases hw
        rw [decode, within_plain rfl]
        simp [ofText, hnone]
      · next t hsome =>
        obtain ⟨e, he, rfl⟩ := map_eq_ok.mp h
        obtain ⟨w', hw', rfl⟩ := map_eq_ok.mp hw
        have hkept := (isKept_decode v t e (FieldType.isFloatless_variant hsome) he).kept
        rw [decode_enum, decodeVariant]
        simp only [hsome, hkept w' hw']
        rfl
    · split at h
      · cases h
      · obtain ⟨_, -, rfl⟩ := map_eq_ok.mp h
        exact encode_variant_ne_null _ _
      · obtain ⟨_, -, rfl⟩ := map_eq_ok.mp h
        exact encode_variant_ne_null _ _

end

end Data

end RecordStore
