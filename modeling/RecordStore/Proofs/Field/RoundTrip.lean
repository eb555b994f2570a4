import RecordStore.Proofs.Field.ObjectIdText
import RecordStore.Proofs.Field.Reading

/-!
The stored form of a field value. It is a value that text can express; whatever is read back from it
is stored in the same form; and it reads back as the value itself, unless some number in it is not
finite or something present is stored as null.
-/
namespace RecordStore

namespace FieldType

theorem isStable_unbox (t : FieldType) : t.unbox.isStable = t.isStable := by
  fun_induction FieldType.unbox t with
  | case1 t ih => exact ih
  | case2 t => rfl

theorem isReadable_unbox (t : FieldType) : t.unbox.isReadable = t.isReadable := by
  fun_induction FieldType.unbox t with
  | case1 t ih => exact ih
  | case2 t => rfl

theorem isKey_unbox (t : FieldType) : t.unbox.isKey = t.isKey := by
  fun_induction FieldType.unbox t with
  | case1 t ih => exact ih
  | case2 t => rfl

theorem storesNull_unbox (t : FieldType) : t.unbox.storesNull = t.storesNull := by
  fun_induction FieldType.unbox t with
  | case1 t ih => exact ih
  | case2 t => rfl

theorem isFaithful_unbox (t : FieldType) : t.unbox.isFaithful = t.isFaithful := by
  fun_induction FieldType.unbox t with
  | case1 t ih => exact ih
  | case2 t => rfl

theorem storesNull_of_isKey (t : FieldType) (hkey : t.isKey) : t.storesNull = t.admitsNull := by
  cases t with
  | box t => exact storesNull_of_isKey t hkey
  | float p => exact absurd hkey (by simp [isKey])
  | _ => rfl

end FieldType

namespace Data

/-- What holds of the stored form of a value. -/
structure ReadsBack (d : Data) (t : FieldType) (v : Json) : Prop where
  proper : v.Proper
  again : ∀ e, decode v t = .ok e → e.encode = .ok v
  exact : Plain d → decode v t = .ok d

theorem ReadsBack.of_unbox {d : Data} {t : FieldType} {v : Json} (h : ReadsBack d t.unbox v) :
    ReadsBack d t v := by
  obtain ⟨hproper, hagain, hexact⟩ := h
  rw [decode_unbox] at hagain hexact
  exact ⟨hproper, hagain, hexact⟩

/-- A value that is read back as itself. -/
theorem ReadsBack.of_decode {d : Data} {t : FieldType} {v : Json} (hproper : v.Proper)
    (hencode : d.encode = .ok v) (hdecode : decode v t = .ok d) : ReadsBack d t v := by
  refine ⟨hproper, fun e he => ?_, fun _ => hdecode⟩
  obtain rfl : d = e := Except.ok.inj (hdecode.symm.trans he)
  exact hencode

theorem encode_ne_null {d : Data} {t : FieldType} (hfits : Fits d t)
    (hnull : t.storesNull = false) : d.encode ≠ .ok .null := by
  rw [← FieldType.storesNull_unbox] at hnull
  cases d with
  | integer n => exact encode_integer_ne_null n
  | float x =>
    obtain ⟨p, hp⟩ := hfits
    exact absurd hnull (by simp [hp, FieldType.storesNull])
  | unit =>
    have hunit : t.unbox = .unit := hfits
    exact absurd hnull (by simp [hunit, FieldType.storesNull])
  | json v => exact absurd hnull (by simp [hfits.1, FieldType.storesNull])
  | absent =>
    obtain ⟨u, hu⟩ := hfits
    exact absurd hnull (by simp [hu, FieldType.storesNull])
  | present d =>
    obtain ⟨u, hu, -⟩ := hfits
    exact absurd hnull (by simp [hu, FieldType.storesNull])
  | list items => exact encode_list_ne_null items
  | map entries => exact encode_map_ne_null entries
  | struct fields => exact encode_struct_ne_null fields
  | variant name content => exact encode_variant_ne_null name content
  | _ =>
    intro h
    cases h

theorem areReadable_replicate {t : FieldType} (h : t.isReadable) (n : Nat) :
    FieldType.areReadable (List.replicate n t) := by
  induction n with
  | zero => rfl
  | succ n ih => simp [List.replicate_succ, FieldType.areReadable, h, ih]

theorem areKeys_replicate {t : FieldType} (h : t.isKey) (n : Nat) :
    FieldType.areKeys (List.replicate n t) := by
  induction n with
  | zero => rfl
  | succ n ih => simp [List.replicate_succ, FieldType.areKeys, h, ih]

mutual

/-- A value that can be a member of a set is read back exactly. -/
theorem plain_of_isKey (d : Data) (t : FieldType) (hfits : Fits d t) (hkey : t.isKey) :
    Plain d := by
  rw [← FieldType.isKey_unbox] at hkey
  cases d with
  | float x =>
    obtain ⟨p, hp⟩ := hfits
    exact absurd hkey (by simp [hp, FieldType.isKey])
  | present d =>
    obtain ⟨u, hu, hd⟩ := hfits
    obtain ⟨hnull, hk⟩ : u.admitsNull = false ∧ u.isKey := by simpa [hu, FieldType.isKey] using hkey
    exact ⟨encode_ne_null hd ((FieldType.storesNull_of_isKey u hk).trans hnull),
      plain_of_isKey d u hd hk⟩
  | list items =>
    rcases hfits with ⟨u, hu, hitems⟩ | ⟨u, hu, hitems, -⟩ | ⟨u, n, hu, hitems⟩ | ⟨ts, hts, hitems⟩
    · rw [hu] at hkey
      exact plainItems_of_isKey items u hitems hkey
    · rw [hu] at hkey
      exact plainItems_of_isKey items u hitems hkey
    · rw [hu] at hkey
      have hitem : u.isKey := hkey
      exact plainItems_of_areKeys items _ hitems (areKeys_replicate hitem n)
    · rw [hts] at hkey
      exact plainItems_of_areKeys items ts hitems hkey
  | map entries =>
    obtain ⟨k, u, hk, -⟩ := hfits
    exact absurd hkey (by simp [hk, FieldType.isKey])
  | struct fields =>
    obtain ⟨n, hn, -⟩ := hfits
    exact absurd hkey (by simp [hn, FieldType.isKey])
  | variant name content =>
    cases content with
    | none => trivial
    | some d =>
      obtain ⟨n, u, hn, -⟩ := hfits
      exact absurd hkey (by simp [hn, FieldType.isKey])
  | _ => trivial

theorem plainItems_of_isKey (items : List Data) (t : FieldType) (hfits : FitsAll items t)
    (hkey : t.isKey) : PlainItems items := by
  cases items with
  | nil => trivial
  | cons d rest =>
    exact ⟨plain_of_isKey d t hfits.1 hkey, plainItems_of_isKey rest t hfits.2 hkey⟩

theorem plainItems_of_areKeys (items : List Data) (ts : List FieldType) (hfits : FitsEach items ts)
    (hkeys : FieldType.areKeys ts) : PlainItems items := by
  cases items with
  | nil => trivial
  | cons d rest =>
    cases ts with
    | nil => exact absurd hfits (by simp [FitsEach])
    | cons t ts =>
      obtain ⟨hkey, hrest⟩ : t.isKey ∧ FieldType.areKeys ts := by
        simpa [FieldType.areKeys] using hkeys
      exact ⟨plain_of_isKey d t hfits.1 hkey, plainItems_of_areKeys rest ts hfits.2 hrest⟩

end

mutual

/-- Where nothing is lost, nothing is lost in the members of sets. -/
theorem setsApart_of_plain (d : Data) (t : FieldType) (h : Plain d) : SetsApart d t := by
  cases d with
  | present d => exact fun u _ => setsApart_of_plain d u h.2
  | list items =>
    exact ⟨fun _ _ => h, fun u _ => setsApartAll_of_plain items u h,
      fun u n _ => setsApartEach_of_plain items _ h, fun ts _ => setsApartEach_of_plain items ts h⟩
  | map entries => exact fun _ u _ => setsApartEntries_of_plain entries u h
  | _ => trivial

theorem setsApartAll_of_plain (items : List Data) (t : FieldType) (h : PlainItems items) :
    SetsApartAll items t := by
  cases items with
  | nil => trivial
  | cons d rest => exact ⟨setsApart_of_plain d t h.1, setsApartAll_of_plain rest t h.2⟩

theorem setsApartEach_of_plain (items : List Data) (ts : List FieldType) (h : PlainItems items) :
    SetsApartEach items ts := by
  cases items with
  | nil => trivial
  | cons d rest =>
    cases ts with
    | nil => trivial
    | cons t ts => exact ⟨setsApart_of_plain d t h.1, setsApartEach_of_plain rest ts h.2⟩

theorem setsApartEntries_of_plain (entries : List (Data × Data)) (t : FieldType)
    (h : PlainEntries entries) : SetsApartEntries entries t := by
  cases entries with
  | nil => trivial
  | cons e rest => exact ⟨setsApart_of_plain e.2 t h.2.1, setsApartEntries_of_plain rest t h.2.2⟩

end

mutual

/-- Values of the types that keys are made of lose nothing, in sets or elsewhere. -/
theorem setsApart_of_isStable (d : Data) (t : FieldType) (hfits : Fits d t) (ht : t.isStable) :
    SetsApart d t := by
  rw [← setsApart_unbox]
  rw [← fits_unbox] at hfits
  rw [← FieldType.isStable_unbox] at ht
  cases d with
  | present d =>
    intro u hu
    rw [t.unbox_unbox] at hu
    rw [hu] at hfits ht
    obtain ⟨w, hw, hd⟩ := hfits
    cases hw
    exact setsApart_of_isStable d u hd ht
  | list items =>
    rcases hfits with ⟨u, hu, hitems⟩ | ⟨u, hu, hitems, -⟩ | ⟨u, n, hu, hitems⟩ | ⟨ts, hu, hitems⟩
    all_goals
      rw [t.unbox_unbox] at hu
      rw [hu] at ht ⊢
    · refine ⟨nofun, fun w hw => ?_, nofun, nofun⟩
      cases hw
      exact setsApartAll_of_isStable items u hitems ht
    · refine ⟨fun w hw => ?_, nofun, nofun, nofun⟩
      cases hw
      exact plainItems_of_isKey items u hitems ht
    · have hitem : u.isStable := ht
      refine ⟨nofun, nofun, fun w k hw => ?_, nofun⟩
      cases hw
      exact setsApartEach_of_isStable items _ hitems (areStable_replicate hitem n)
    · refine ⟨nofun, nofun, nofun, fun w hw => ?_⟩
      cases hw
      exact setsApartEach_of_isStable items ts hitems ht
  | map entries =>
    intro k u hu
    rw [t.unbox_unbox] at hu
    rw [hu] at hfits ht
    obtain ⟨l, w, hw, hentries, -⟩ := hfits
    cases hw
    exact setsApartEntries_of_isStable entries k u hentries (FieldType.isStable_map ht).2
  | _ => trivial

theorem setsApartAll_of_isStable (items : List Data) (t : FieldType) (hfits : FitsAll items t)
    (ht : t.isStable) : SetsApartAll items t := by
  cases items with
  | nil => trivial
  | cons d rest =>
    exact ⟨setsApart_of_isStable d t hfits.1 ht, setsApartAll_of_isStable rest t hfits.2 ht⟩

theorem setsApartEach_of_isStable (items : List Data) (ts : List FieldType)
    (hfits : FitsEach items ts) (ht : FieldType.areStable ts) : SetsApartEach items ts := by
  cases items with
  | nil => trivial
  | cons d rest =>
    cases ts with
    | nil => trivial
    | cons t ts =>
      obtain ⟨htype, hrest⟩ : t.isStable ∧ FieldType.areStable ts := by
        simpa [FieldType.areStable] using ht
      exact ⟨setsApart_of_isStable d t hfits.1 htype,
        setsApartEach_of_isStable rest ts hfits.2 hrest⟩

theorem setsApartEntries_of_isStable (entries : List (Data × Data)) (k t : FieldType)
    (hfits : FitsEntries entries k t) (ht : t.isStable) : SetsApartEntries entries t := by
  cases entries with
  | nil => trivial
  | cons e rest =>
    exact ⟨setsApart_of_isStable e.2 t hfits.2.1 ht,
      setsApartEntries_of_isStable rest k t hfits.2.2 ht⟩

end

theorem names_of_fitsFields {fields : List (String × Data)} {parts : List StructField}
    (h : FitsFields fields parts) : fields.map Prod.fst = parts.map StructField.name := by
  induction fields generalizing parts with
  | nil =>
    cases parts with
    | nil => rfl
    | cons f fs => exact absurd h (by simp [FitsFields])
  | cons e rest ih =>
    cases parts with
    | nil => exact absurd h (by simp [FitsFields])
    | cons f fs =>
      obtain ⟨hname, -, hrest⟩ := h
      rw [List.map_cons, List.map_cons, ih hrest, hname]

theorem names_nodup (n : StructName) : (n.fields.map StructField.name).Nodup := by
  cases n <;> simp [StructName.fields]

/-- A struct of which every part was read is complete. -/
theorem completeStruct_of_names {parts : List (String × Data)}
    (hkeys : (parts.map Prod.fst).Nodup) :
    ∀ (fields : List StructField) (rest : List (String × Data)),
      rest.map Prod.fst = fields.map StructField.name → (∀ p ∈ rest, p ∈ parts) →
        completeStruct parts fields = .ok rest
  | [], rest, hnames, _ => by
    have hnil : rest = [] := List.map_eq_nil_iff.mp hnames
    rw [hnil]
    rfl
  | f :: fields, [], hnames, _ => by simp at hnames
  | f :: fields, (name, d) :: rest, hnames, hmem => by
    obtain ⟨hname, hnames⟩ := List.cons.inj hnames
    have hname : name = f.name := hname
    have hlookup : parts.lookup f.name = some d :=
      lookup_of_mem hkeys (hname ▸ hmem (name, d) (List.mem_cons_self ..))
    have hrest := completeStruct_of_names hkeys fields rest hnames fun p hp =>
      hmem p (List.mem_cons_of_mem _ hp)
    simp [completeStruct, hlookup, hrest, hname, Except.map]

theorem keys_of_encodeFields {fields : List (String × Data)} {values : Values}
    (h : encodeFields fields = .ok values) : values.map Prod.fst = fields.map Prod.fst := by
  induction fields generalizing values with
  | nil =>
    cases h
    rfl
  | cons e rest ih =>
    obtain ⟨v, -, h⟩ := bind_eq_ok.mp h
    obtain ⟨vs, hvs, h⟩ := bind_eq_ok.mp h
    cases h
    rw [List.map_cons, List.map_cons, ih hvs]

theorem nodup_of_ascending_texts {keys : List String} (h : Ascending (keys.map Data.string)) :
    keys.Nodup := by
  refine List.Pairwise.imp ?_ (List.pairwise_map.mp h)
  rintro a b hlt rfl
  have hswap := order_swap (.string a) (.string a)
  rw [hlt] at hswap
  cases hswap

theorem readsBack_text {d : Data} {t : FieldType} {s : String} (hpeel : t.peel = (0, t))
    (hencode : d.encode = .ok (.string s)) (htext : ofText s t = .ok d) :
    ReadsBack d t (.string s) := by
  refine .of_decode trivial hencode ?_
  rw [decode, within_plain hpeel, htext]

theorem readsBack_integer {n : Int} {k : IntegerType} {v : Json} (hk : k.contains n)
    (hv : (Data.integer n).encode = .ok v) : ReadsBack (.integer n) (.integer k) v := by
  have hencode := hv
  simp only [encode, integerJson] at hv
  split at hv
  · next hn =>
    cases hv
    refine .of_decode hn hencode ?_
    rw [decode, within_plain rfl]
    simp [ofNumber, hk]
  · cases hv

/-- A number that is not finite is not read back at all. -/
theorem readsBack_float {x : Binary64} : ReadsBack (.float x) (.float .double) (floatJson x) := by
  by_cases hx : x.isFinite = true
  · have hv : floatJson x = .float x := by simp [floatJson, hx]
    rw [hv]
    refine .of_decode hx (by simp [encode, hv]) ?_
    rw [decode, within_plain rfl]
    simp [ofNumber, Binary64.toPrecision_double x hx]
  · have hv : floatJson x = .null := by simp [floatJson, hx]
    rw [hv]
    refine ⟨trivial, fun e he => ?_, fun hplain => absurd hplain hx⟩
    cases he

/-- A stored value is read as itself. -/
theorem decode_json (v : Json) : decode v .json = .ok (.json v) := by
  cases v <;> rfl

theorem decode_bool (b : Bool) : decode (.bool b) .bool = .ok (.bool b) := rfl

theorem decode_list (items : List Json) (t : FieldType) :
    decode (.array items) (.list t) = (decodeAll items t).map .list := by
  rw [decode, within_plain rfl]

theorem decode_set (items : List Json) (t : FieldType) :
    decode (.array items) (.set t) = (decodeAll items t).map setOf := by
  rw [decode, within_plain rfl]

theorem decode_array (items : List Json) (t : FieldType) (n : Nat) :
    decode (.array items) (.array t n) =
      (decodeEach items (List.replicate n t)
        (tooShort items (FieldType.array t n).expected) (tooLong items)).map .list := by
  rw [decode, within_plain rfl]

theorem decode_tuple (items : List Json) (ts : List FieldType) :
    decode (.array items) (.tuple ts) =
      (decodeEach items ts (tooShort items (FieldType.tuple ts).expected) (tooLong items)).map
        .list := by
  rw [decode, within_plain rfl]

theorem decode_map (entries : List (String × Json)) (k t : FieldType) :
    decode (.object entries) (.map k t) = (decodeEntries entries k t).map mapOf := by
  rw [decode, within_plain rfl]

theorem decode_struct (entries : List (String × Json)) (n : StructName) :
    decode (.object entries) (.struct n) =
      (do .struct <$> completeStruct (← decodeFields entries n.fields) n.fields) := by
  rw [decode, within_plain rfl]

theorem decode_enum (entries : List (String × Json)) (n : EnumName) :
    decode (.object entries) (.enum n) = decodeVariant entries n := by
  rw [decode, within_plain rfl]

/-- An option that holds a value is stored like the value. -/
theorem ReadsBack.present {d : Data} {t : FieldType} {v : Json} (hencode : d.encode = .ok v)
    (h : ReadsBack d t v) : ReadsBack (.present d) (.option t) v := by
  by_cases hnull : v = .null
  · subst hnull
    refine ⟨trivial, fun e he => ?_, fun hplain => absurd hencode hplain.1⟩
    rw [decode_option_null] at he
    cases he
    rfl
  · refine ⟨h.proper, fun e he => ?_, fun hplain => ?_⟩
    · rw [decode_option hnull] at he
      obtain ⟨d', hd', rfl⟩ := map_eq_ok.mp he
      exact h.again d' hd'
    · rw [decode_option hnull, h.exact hplain.2]
      rfl

theorem encode_eq_ok_list {items : List Data} {v : Json} :
    (Data.list items).encode = .ok v ↔ ∃ vs, encodeItems items = .ok vs ∧ v = .array vs := by
  rw [encode, map_eq_ok]
  simp only [eq_comm]

/-- Items that are read one by one. -/
theorem ReadsBack.items {items : List Data} {t : FieldType} {vs : List Json}
    {decoded : Except CodecError (List Data)} (hproper : Json.ProperItems vs)
    (hdecode : decode (.array vs) t = decoded.map .list)
    (hagain : ∀ es, decoded = .ok es → encodeItems es = .ok vs)
    (hexact : PlainItems items → decoded = .ok items) :
    ReadsBack (.list items) t (.array vs) := by
  refine ⟨hproper, fun e he => ?_, fun hplain => ?_⟩
  · rw [hdecode] at he
    obtain ⟨es, hes, rfl⟩ := map_eq_ok.mp he
    exact encode_eq_ok_list.mpr ⟨vs, hagain es hes, rfl⟩
  · rw [hdecode, hexact hplain]
    rfl

/-- Entries whose keys are texts, in their order. -/
theorem ReadsBack.map {entries : List (Data × Data)} {t : FieldType} {vs : List (String × Json)}
    (hproper : Json.ProperEntries vs)
    (hkeys : entries.map Prod.fst = (vs.map Prod.fst).map Data.string)
    (hascending : Ascending (entries.map Prod.fst))
    (hagain : ∀ es, decodeEntries vs .string t = .ok es →
      es.map Prod.fst = (vs.map Prod.fst).map Data.string ∧ encodeEntries es = .ok vs)
    (hexact : PlainEntries entries → decodeEntries vs .string t = .ok entries) :
    ReadsBack (.map entries) (.map .string t) (.object vs) := by
  rw [hkeys] at hascending
  refine ⟨⟨nodup_of_ascending_texts hascending, hproper⟩, fun e he => ?_, fun hplain => ?_⟩
  · rw [decode_map] at he
    obtain ⟨ds, hds, rfl⟩ := map_eq_ok.mp he
    obtain ⟨hsame, hds⟩ := hagain ds hds
    rw [mapOf_of_ascending (by rwa [hsame]), encode, hds]
    rfl
  · rw [decode_map, hexact hplain, Except.map, mapOf_of_ascending (by rwa [hkeys])]

/-- The parts of a struct, each of which has to be there. -/
theorem ReadsBack.struct {fields : List (String × Data)} {n : StructName} {vs : Values}
    (hproper : Json.ProperEntries vs) (hnames : fields.map Prod.fst = n.fields.map StructField.name)
    (hkeys : vs.map Prod.fst = fields.map Prod.fst)
    (hagain : ∀ es, decodeFields vs n.fields = .ok es →
      es.map Prod.fst = n.fields.map StructField.name ∧ encodeFields es = .ok vs)
    (hexact : PlainFields fields → decodeFields vs n.fields = .ok fields) :
    ReadsBack (.struct fields) (.struct n) (.object vs) := by
  have hcomplete {parts : List (String × Data)}
      (hparts : parts.map Prod.fst = n.fields.map StructField.name) :
      completeStruct parts n.fields = .ok parts :=
    completeStruct_of_names (hparts ▸ names_nodup n) n.fields parts hparts fun p hp => hp
  refine ⟨⟨?_, hproper⟩, fun e he => ?_, fun hplain => ?_⟩
  · rw [hkeys, hnames]
    exact names_nodup n
  · rw [decode_struct] at he
    obtain ⟨parts, hparts, he⟩ := bind_eq_ok.mp he
    obtain ⟨hsame, hparts⟩ := hagain parts hparts
    rw [hcomplete hsame] at he
    cases he
    rw [encode, hparts]
    rfl
  · rw [decode_struct, hexact hplain]
    show (Data.struct <$> completeStruct fields n.fields) = _
    rw [hcomplete hnames]
    rfl

/-- A variant that holds a value. -/
theorem ReadsBack.variant {name : String} {n : EnumName} {d : Data} {t : FieldType} {v : Json}
    (hname : n.variants.lookup name = some (some t)) (h : ReadsBack d t v) :
    ReadsBack (.variant name (some d)) (.enum n) (.object [(name, v)]) := by
  have hdecode : decode (.object [(name, v)]) (.enum n) =
      (decode v t).map fun d => .variant name (some d) := by
    rw [decode_enum, decodeVariant, hname]
  refine ⟨⟨by simp, h.proper, trivial⟩, fun e he => ?_, fun hplain => ?_⟩
  · rw [hdecode] at he
    obtain ⟨d', hd', rfl⟩ := map_eq_ok.mp he
    rw [encode, h.again d' hd']
    rfl
  · rw [hdecode, h.exact hplain]
    rfl

mutual

/-- The stored form of a value reads back, where members of sets stay apart. -/
theorem readsBack_of_setsApart (d : Data) (t : FieldType) (v : Json) (hfits : Fits d t)
    (ht : t.isReadable) (hapart : SetsApart d t) (hv : d.encode = .ok v) : ReadsBack d t v := by
  refine .of_unbox ?_
  have hencode := hv
  rw [← FieldType.isReadable_unbox] at ht
  cases d with
  | bool b =>
    cases hv
    have hu : t.unbox = .bool := hfits
    rw [hu]
    exact .of_decode trivial rfl (decode_bool b)
  | integer n =>
    obtain ⟨k, hu, hk⟩ := hfits
    rw [hu]
    exact readsBack_integer hk hv
  | float x =>
    cases hv
    obtain ⟨p, hu⟩ := hfits
    rw [hu] at ht ⊢
    obtain rfl : p = .double := by simpa [FieldType.isReadable] using ht
    exact readsBack_float
  | char c =>
    cases hv
    have hu : t.unbox = .char := hfits
    rw [hu]
    exact readsBack_text rfl rfl (by simp [ofText])
  | string s =>
    cases hv
    have hu : t.unbox = .string := hfits
    rw [hu]
    exact readsBack_text rfl rfl rfl
  | unit =>
    cases hv
    have hu : t.unbox = .unit := hfits
    rw [hu]
    exact .of_decode trivial rfl rfl
  | json w =>
    cases hv
    obtain ⟨hu, hw⟩ := hfits
    rw [hu]
    exact .of_decode hw rfl (decode_json v)
  | objectId id =>
    cases hv
    have hu : t.unbox = .objectId := hfits
    rw [hu]
    exact readsBack_text rfl rfl (by simp [ofText, ObjectId.parse_stored])
  | absent =>
    cases hv
    obtain ⟨u, hu⟩ := hfits
    rw [hu]
    exact .of_decode trivial rfl (decode_option_null u)
  | present d =>
    obtain ⟨u, hu, hd⟩ := hfits
    rw [hu] at ht ⊢
    exact .present hv (readsBack_of_setsApart d u v hd ht (hapart u hu) hv)
  | list items =>
    obtain ⟨vs, hvs, rfl⟩ := encode_eq_ok_list.mp hv
    rcases hfits with ⟨u, hu, hitems⟩ | ⟨u, hu, hitems, hascending⟩ | ⟨u, n, hu, hitems⟩ |
      ⟨ts, hu, hitems⟩
    · rw [hu] at ht ⊢
      obtain ⟨hproper, hagain, hexact⟩ :=
        readsBack_items items u vs hitems ht (hapart.2.1 u hu) hvs
      exact .items hproper (decode_list vs u) hagain hexact
    · -- Members that lose nothing are read back exactly, and in their order they make the same set.
      have hplain := hapart.1 u hu
      rw [hu] at ht ⊢
      obtain ⟨hproper, -, hexact⟩ :=
        readsBack_items items u vs hitems ht (setsApartAll_of_plain items u hplain) hvs
      refine .of_decode hproper hencode ?_
      rw [decode_set, hexact hplain, Except.map, setOf_of_ascending hascending]
    · rw [hu] at ht ⊢
      have hitem : u.isReadable := ht
      obtain ⟨hproper, hagain, hexact⟩ := readsBack_each items _ vs hitems
        (areReadable_replicate hitem n) (hapart.2.2.1 u n hu) hvs
      exact .items hproper (decode_array vs u n) (hagain _ _) (hexact _ _)
    · rw [hu] at ht ⊢
      obtain ⟨hproper, hagain, hexact⟩ :=
        readsBack_each items ts vs hitems ht (hapart.2.2.2 ts hu) hvs
      exact .items hproper (decode_tuple vs ts) (hagain _ _) (hexact _ _)
  | map entries =>
    obtain ⟨k, u, hu, hentries, hascending⟩ := hfits
    have hvalues := hapart k u hu
    rw [hu] at ht ⊢
    obtain ⟨rfl, hvalue⟩ := FieldType.isReadable_map ht
    rw [encode] at hv
    obtain ⟨es, hes, rfl⟩ := map_eq_ok.mp hv
    obtain ⟨hproper, hkeys, hagain, hexact⟩ :=
      readsBack_entries entries u es hentries hvalue hvalues hes
    exact .map hproper hkeys hascending hagain hexact
  | struct fields =>
    obtain ⟨n, hu, hfields⟩ := hfits
    rw [hu]
    rw [encode] at hv
    obtain ⟨es, hes, rfl⟩ := map_eq_ok.mp hv
    obtain ⟨hproper, hagain, hexact⟩ :=
      readsBack_fields fields n n.fields es (fun f hf => hf) hfields hes
    exact .struct hproper (names_of_fitsFields hfields) (keys_of_encodeFields hes) hagain hexact
  | variant name content =>
    cases content with
    | none =>
      cases hv
      obtain ⟨n, hu, hname⟩ := hfits
      rw [hu]
      exact readsBack_text rfl rfl (by simp [ofText, hname])
    | some d =>
      obtain ⟨n, u, hu, hname, hd⟩ := hfits
      rw [hu]
      rw [encode] at hv
      obtain ⟨w, hw, rfl⟩ := map_eq_ok.mp hv
      have hstable : u.isStable := isStable_variant hname
      exact .variant hname (readsBack_of_setsApart d u w hd
        (FieldType.isReadable_of_isStable u hstable) (setsApart_of_isStable d u hd hstable) hw)

theorem readsBack_items (items : List Data) (t : FieldType) (vs : List Json)
    (hfits : FitsAll items t) (ht : t.isReadable) (hapart : SetsApartAll items t)
    (hvs : encodeItems items = .ok vs) :
    Json.ProperItems vs ∧ (∀ es, decodeAll vs t = .ok es → encodeItems es = .ok vs) ∧
      (PlainItems items → decodeAll vs t = .ok items) := by
  cases items with
  | nil =>
    cases hvs
    refine ⟨trivial, fun es hes => ?_, fun _ => rfl⟩
    cases hes
    rfl
  | cons d rest =>
    obtain ⟨v, hv, hvs⟩ := bind_eq_ok.mp hvs
    obtain ⟨ws, hws, hvs⟩ := bind_eq_ok.mp hvs
    cases hvs
    obtain ⟨hproper, hagain, hexact⟩ := readsBack_of_setsApart d t v hfits.1 ht hapart.1 hv
    obtain ⟨hproper', hagain', hexact'⟩ := readsBack_items rest t ws hfits.2 ht hapart.2 hws
    refine ⟨⟨hproper, hproper'⟩, fun es hes => ?_, fun hplain => ?_⟩
    · obtain ⟨e, he, hes⟩ := bind_eq_ok.mp hes
      obtain ⟨fs, hfs, hes⟩ := bind_eq_ok.mp hes
      cases hes
      rw [encodeItems, hagain e he, hagain' fs hfs]
      rfl
    · rw [decodeAll, hexact hplain.1, hexact' hplain.2]
      rfl

theorem readsBack_each (items : List Data) (ts : List FieldType) (vs : List Json)
    (hfits : FitsEach items ts) (ht : FieldType.areReadable ts) (hapart : SetsApartEach items ts)
    (hvs : encodeItems items = .ok vs) :
    Json.ProperItems vs ∧
      (∀ short long es, decodeEach vs ts short long = .ok es → encodeItems es = .ok vs) ∧
      (∀ short long, PlainItems items → decodeEach vs ts short long = .ok items) := by
  cases items with
  | nil =>
    cases ts with
    | cons t ts => exact absurd hfits (by simp [FitsEach])
    | nil =>
      cases hvs
      refine ⟨trivial, fun short long es hes => ?_, fun _ _ _ => rfl⟩
      cases hes
      rfl
  | cons d rest =>
    cases ts with
    | nil => exact absurd hfits (by simp [FitsEach])
    | cons t ts =>
      obtain ⟨htype, hrest⟩ : t.isReadable ∧ FieldType.areReadable ts := by
        simpa [FieldType.areReadable] using ht
      obtain ⟨v, hv, hvs⟩ := bind_eq_ok.mp hvs
      obtain ⟨ws, hws, hvs⟩ := bind_eq_ok.mp hvs
      cases hvs
      obtain ⟨hproper, hagain, hexact⟩ := readsBack_of_setsApart d t v hfits.1 htype hapart.1 hv
      obtain ⟨hproper', hagain', hexact'⟩ := readsBack_each rest ts ws hfits.2 hrest hapart.2 hws
      refine ⟨⟨hproper, hproper'⟩, fun short long es hes => ?_, fun short long hplain => ?_⟩
      · obtain ⟨e, he, hes⟩ := bind_eq_ok.mp hes
        obtain ⟨fs, hfs, hes⟩ := bind_eq_ok.mp hes
        cases hes
        rw [encodeItems, hagain e he, hagain' short long fs hfs]
        rfl
      · rw [decodeEach, hexact hplain.1, hexact' short long hplain.2]
        rfl

theorem readsBack_entries (entries : List (Data × Data)) (t : FieldType)
    (vs : List (String × Json)) (hfits : FitsEntries entries .string t) (ht : t.isReadable)
    (hapart : SetsApartEntries entries t) (hvs : encodeEntries entries = .ok vs) :
    Json.ProperEntries vs ∧ entries.map Prod.fst = (vs.map Prod.fst).map Data.string ∧
      (∀ es, decodeEntries vs .string t = .ok es →
        es.map Prod.fst = (vs.map Prod.fst).map Data.string ∧ encodeEntries es = .ok vs) ∧
      (PlainEntries entries → decodeEntries vs .string t = .ok entries) := by
  cases entries with
  | nil =>
    cases hvs
    refine ⟨trivial, rfl, fun es hes => ?_, fun _ => rfl⟩
    cases hes
    exact ⟨rfl, rfl⟩
  | cons e rest =>
    obtain ⟨k, d⟩ := e
    obtain ⟨key, hkey, hvs⟩ := bind_eq_ok.mp hvs
    obtain ⟨v, hv, hvs⟩ := bind_eq_ok.mp hvs
    obtain ⟨ws, hws, hvs⟩ := bind_eq_ok.mp hvs
    cases hvs
    obtain ⟨hk, hd, hrest⟩ := hfits
    obtain ⟨text, rfl⟩ := eq_string_of_fits hk
    obtain rfl : key = text := (Except.ok.inj hkey).symm
    obtain ⟨hproper, hagain, hexact⟩ := readsBack_of_setsApart d t v hd ht hapart.1 hv
    obtain ⟨hproper', hkeys, hagain', hexact'⟩ :=
      readsBack_entries rest t ws hrest ht hapart.2 hws
    refine ⟨⟨hproper, hproper'⟩, by simp [hkeys], fun es hes => ?_, fun hplain => ?_⟩
    · obtain ⟨key', hkey', hes⟩ := bind_eq_ok.mp hes
      obtain ⟨e, he, hes⟩ := bind_eq_ok.mp hes
      obtain ⟨fs, hfs, hes⟩ := bind_eq_ok.mp hes
      cases hes
      obtain rfl : Data.string key = key' := Except.ok.inj hkey'
      obtain ⟨hsame, hfs⟩ := hagain' fs hfs
      refine ⟨by simp [hsame], ?_⟩
      rw [encodeEntries, hagain e he, hfs]
      rfl
    · have hkey' : ofKey key .string = .ok (.string key) := rfl
      rw [decodeEntries, hkey', hexact hplain.2.1, hexact' hplain.2.2]
      rfl

theorem readsBack_fields (fields : List (String × Data)) (n : StructName)
    (parts : List StructField) (vs : Values) (hmem : ∀ f ∈ parts, f ∈ n.fields)
    (hfits : FitsFields fields parts) (hvs : encodeFields fields = .ok vs) :
    Json.ProperEntries vs ∧
      (∀ es, decodeFields vs n.fields = .ok es →
        es.map Prod.fst = parts.map StructField.name ∧ encodeFields es = .ok vs) ∧
      (PlainFields fields → decodeFields vs n.fields = .ok fields) := by
  cases fields with
  | nil =>
    cases parts with
    | cons f fs => exact absurd hfits (by simp [FitsFields])
    | nil =>
      cases hvs
      refine ⟨trivial, fun es hes => ?_, fun _ => rfl⟩
      cases hes
      exact ⟨rfl, rfl⟩
  | cons e rest =>
    cases parts with
    | nil => exact absurd hfits (by simp [FitsFields])
    | cons f fs =>
      obtain ⟨name, d⟩ := e
      obtain ⟨v, hv, hvs⟩ := bind_eq_ok.mp hvs
      obtain ⟨ws, hws, hvs⟩ := bind_eq_ok.mp hvs
      cases hvs
      obtain ⟨rfl, hd, hrest⟩ := hfits
      have hf := hmem f (List.mem_cons_self ..)
      have hstable := FieldType.isStable_structField hf
      obtain ⟨hproper, hagain, hexact⟩ := readsBack_of_setsApart d f.type v hd
        (FieldType.isReadable_of_isStable _ hstable) (setsApart_of_isStable d _ hd hstable) hv
      obtain ⟨hproper', hagain', hexact'⟩ := readsBack_fields rest n fs ws
        (fun g hg => hmem g (List.mem_cons_of_mem _ hg)) hrest hws
      refine ⟨⟨hproper, hproper'⟩, fun es hes => ?_, fun hplain => ?_⟩
      · simp only [decodeFields, find_structField hf] at hes
        obtain ⟨e, he, hes⟩ := bind_eq_ok.mp hes
        obtain ⟨gs, hgs, hes⟩ := bind_eq_ok.mp hes
        cases hes
        obtain ⟨hsame, hgs⟩ := hagain' gs hgs
        refine ⟨by simp [hsame], ?_⟩
        rw [encodeFields, hagain e he, hgs]
        rfl
      · simp only [decodeFields, find_structField hf]
        rw [hexact hplain.1, hexact' hplain.2]
        rfl

end

/-- The stored form of a value reads back, where members of sets are told apart by their type. -/
theorem readsBack (d : Data) (t : FieldType) (v : Json) (hfits : Fits d t) (ht : t.isStable)
    (hv : d.encode = .ok v) : ReadsBack d t v :=
  readsBack_of_setsApart d t v hfits (FieldType.isReadable_of_isStable t ht)
    (setsApart_of_isStable d t hfits ht) hv

end Data

end RecordStore
