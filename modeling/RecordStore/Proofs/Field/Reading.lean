import RecordStore.Proofs.Field.Typing
import RecordStore.Proofs.Number.Rounding

/-!
What a reader makes of a stored value. A value that was read belongs to the type it was read as and
holds no number that is not finite; where something other than null was read, it is not stored as
null.
-/
namespace RecordStore.Data

theorem bind_eq_ok {ε α β : Type} {e : Except ε α} {f : α → Except ε β} {b : β} :
    (e >>= f) = .ok b ↔ ∃ a, e = .ok a ∧ f a = .ok b := by
  cases e <;> simp [bind, Except.bind]

theorem map_eq_ok {ε α β : Type} {e : Except ε α} {f : α → β} {b : β} :
    e.map f = .ok b ↔ ∃ a, e = .ok a ∧ f a = b := by
  cases e <;> simp [Except.map]

/-- A value that was read, with what it was read from and as what. -/
structure IsRead (v : Json) (t : FieldType) (d : Data) : Prop where
  fits : Fits d t
  plain : Plain d
  notNull : v ≠ .null → d.encode ≠ .ok .null

theorem encode_presentIn (n : Nat) (d : Data) : (presentIn n d).encode = d.encode := by
  induction n with
  | zero => rfl
  | succ n ih => simpa [presentIn, encode] using ih

theorem fits_presentIn {d : Data} {t : FieldType} (h : Fits d t.peel.2) :
    Fits (presentIn t.peel.1 d) t := by
  fun_induction FieldType.peel t with
  | case1 t ih => exact ⟨t, rfl, ih h⟩
  | case2 t ih =>
    rw [← fits_unbox, FieldType.unbox, fits_unbox]
    exact ih h
  | case3 t => exact h

theorem plain_presentIn {d : Data} (n : Nat) (h : Plain d) (hd : d.encode ≠ .ok .null) :
    Plain (presentIn n d) := by
  induction n with
  | zero => exact h
  | succ n ih => exact ⟨by rwa [encode_presentIn], ih⟩

theorem isStable_peel {t : FieldType} (h : t.isStable) : t.peel.2.isStable := by
  fun_induction FieldType.peel t with
  | case1 t ih => exact ih h
  | case2 t ih => exact ih h
  | case3 t => exact h

theorem unbox_of_peel_zero {t : FieldType} (h : t.peel.1 = 0) : t.unbox = t.peel.2 := by
  fun_induction FieldType.peel t with
  | case1 t ih => exact absurd h (by simp)
  | case2 t ih => exact ih h
  | case3 t _ hbox => exact FieldType.unbox.eq_2 t hbox

theorem unbox_of_peel_pos {t : FieldType} (h : t.peel.1 ≠ 0) : ∃ u, t.unbox = .option u := by
  fun_induction FieldType.peel t with
  | case1 t ih => exact ⟨t, rfl⟩
  | case2 t ih => exact ih h
  | case3 t => exact absurd rfl h

/-- What is not null is read inside the options. -/
theorem isRead_within {v : Json} {t : FieldType} {read : FieldType → Except CodecError Data}
    {d : Data} (hv : v ≠ .null) (h : within t read = .ok d)
    (hread : ∀ e, read t.peel.2 = .ok e → IsRead v t.peel.2 e) : IsRead v t d := by
  obtain ⟨e, he, rfl⟩ := map_eq_ok.mp h
  obtain ⟨hfits, hplain, hnull⟩ := hread e he
  refine ⟨fits_presentIn hfits, plain_presentIn _ hplain (hnull hv), fun _ => ?_⟩
  rw [encode_presentIn]
  exact hnull hv

theorem isRead_null {t : FieldType} {d : Data} (h : decode .null t = .ok d) :
    IsRead .null t d := by
  simp only [decode] at h
  split at h
  · next hzero =>
    have hunbox := unbox_of_peel_zero hzero
    unfold ofNull at h
    split at h
    · next hunit =>
      obtain rfl := Except.ok.inj h
      exact ⟨hunbox.trans hunit, trivial, fun hv => absurd rfl hv⟩
    · next hjson =>
      obtain rfl := Except.ok.inj h
      exact ⟨⟨hunbox.trans hjson, trivial⟩, trivial, fun hv => absurd rfl hv⟩
    · cases h
  · next hpos =>
    obtain rfl := Except.ok.inj h
    exact ⟨unbox_of_peel_pos hpos, trivial, fun hv => absurd rfl hv⟩

theorem encode_integer_ne_null (n : Int) : (Data.integer n).encode ≠ .ok .null := by
  simp only [encode, integerJson]
  split <;> simp

theorem encode_float_ne_null {x : Binary64} (h : x.isFinite = true) :
    (Data.float x).encode ≠ .ok .null := by
  simp [encode, floatJson, h]

theorem map_ne_ok {α β : Type} {e : Except CodecError α} {f : α → β} {b : β}
    (h : ∀ a, f a ≠ b) : e.map f ≠ .ok b := by
  cases e with
  | error e => simp [Except.map]
  | ok a => simpa [Except.map] using h a

theorem isRead_ofNumber {v : Json} {t : FieldType} {d : Data} (hv : v.Proper) (hnull : v ≠ .null)
    (ht : t.isStable) (h : ofNumber v t = .ok d) : IsRead v t d := by
  unfold ofNumber at h
  split at h
  · split at h
    · next n k hk =>
      obtain rfl := Except.ok.inj h
      exact ⟨⟨k, rfl, hk⟩, trivial, fun _ => encode_integer_ne_null n⟩
    · cases h
  · next n p =>
    obtain rfl := Except.ok.inj h
    have hp : p = .double := by simpa [FieldType.isStable] using ht
    have hrange : n.natAbs < 2 ^ 64 := by
      have hn : Json.isStorable n = true := hv
      simp only [Json.isStorable, Bool.and_eq_true, decide_eq_true_eq] at hn
      omega
    have hfinite : (Binary64.ofInt p n).isFinite = true := by
      rw [hp]
      exact Binary64.isFinite_ofInt n hrange
    exact ⟨⟨p, rfl⟩, hfinite, fun _ => encode_float_ne_null hfinite⟩
  · next x p =>
    obtain rfl := Except.ok.inj h
    have hp : p = .double := by simpa [FieldType.isStable] using ht
    have hx : x.isFinite = true := hv
    have hfinite : (x.toPrecision p).isFinite = true := by
      rw [hp, Binary64.toPrecision_double x hx]
      exact hx
    exact ⟨⟨p, rfl⟩, hfinite, fun _ => encode_float_ne_null hfinite⟩
  · obtain rfl := Except.ok.inj h
    exact ⟨⟨rfl, hv⟩, trivial, fun _ => by simpa [encode] using hnull⟩
  · cases h

theorem isRead_ofText {s : String} {t : FieldType} {d : Data} (h : ofText s t = .ok d) :
    IsRead (.string s) t d := by
  unfold ofText at h
  split at h
  · obtain rfl := Except.ok.inj h
    exact ⟨rfl, trivial, fun _ => by simp [encode]⟩
  · obtain rfl := Except.ok.inj h
    exact ⟨⟨rfl, trivial⟩, trivial, fun _ => by simp [encode]⟩
  · split at h
    · obtain rfl := Except.ok.inj h
      exact ⟨rfl, trivial, fun _ => by simp [encode]⟩
    · cases h
  · split at h
    · obtain rfl := Except.ok.inj h
      exact ⟨rfl, trivial, fun _ => by simp [encode]⟩
    · cases h
  · next n =>
    split at h
    · next hlookup =>
      obtain rfl := Except.ok.inj h
      exact ⟨⟨n, rfl, hlookup⟩, trivial, fun _ => by simp [encode]⟩
    · cases h
    · cases h
  · cases h

theorem isStable_variant {n : EnumName} {name : String} {t : FieldType}
    (h : n.variants.lookup name = some (some t)) : t.isStable := by
  have hmem : (name, some t) ∈ n.variants := mem_of_lookup h
  cases n
  simp only [EnumName.variants, List.mem_cons, List.not_mem_nil, or_false, Prod.mk.injEq] at hmem
  rcases hmem with ⟨-, hn⟩ | ⟨-, hn⟩ | ⟨-, hs⟩
  · cases hn
  · cases hn
  · cases hs
    rfl

theorem areStable_replicate {t : FieldType} (h : t.isStable) (n : Nat) :
    FieldType.areStable (List.replicate n t) := by
  induction n with
  | zero => rfl
  | succ n ih => simp [List.replicate_succ, FieldType.areStable, h, ih]

/-- What stands for a part that is left out belongs to the type of the part. -/
theorem isRead_default {n : StructName} {f : StructField} {d : Data} (hf : f ∈ n.fields)
    (h : f.default? = some d) : Fits d f.type ∧ Plain d := by
  cases n <;> simp only [StructName.fields, List.mem_cons, List.not_mem_nil, or_false] at hf
  · rcases hf with rfl | rfl
    · cases h
    · cases h
      exact ⟨⟨_, rfl, by decide⟩, trivial⟩
  · rcases hf with rfl | rfl | rfl <;> cases h <;> exact ⟨rfl, trivial⟩
  · rcases hf with rfl | rfl | rfl | rfl <;> cases h
  · rcases hf with rfl | rfl | rfl <;> cases h

theorem isRead_absent {n : StructName} {f : StructField} {d : Data} (hf : f ∈ n.fields)
    (h : f.absent? = some d) : Fits d f.type ∧ Plain d := by
  unfold StructField.absent? at h
  split at h
  · next e he =>
    cases h
    exact isRead_default hf he
  · split at h
    · cases h
    · next hpeel =>
      cases h
      exact ⟨unbox_of_peel_pos hpeel, trivial⟩

theorem find_structField {n : StructName} {f : StructField} (hf : f ∈ n.fields) :
    n.fields.find? (·.name == f.name) = some f := by
  cases n <;> simp only [StructName.fields, List.mem_cons, List.not_mem_nil, or_false] at hf
  · rcases hf with rfl | rfl <;> rfl
  · rcases hf with rfl | rfl | rfl <;> rfl
  · rcases hf with rfl | rfl | rfl | rfl <;> rfl
  · rcases hf with rfl | rfl | rfl <;> rfl

/-- What holds of every default holds of the parts that an array left out. -/
theorem forall₂_of_defaultParts {P : StructField → Data → Prop} {short : CodecError}
    {fields : List StructField} (hdefault : ∀ f ∈ fields, ∀ d, f.default? = some d → P f d)
    {parts : List (String × Data)} (h : defaultParts short fields = .ok parts) :
    List.Forall₂ (fun p f => p.1 = f.name ∧ P f p.2) parts fields := by
  induction fields generalizing parts with
  | nil =>
    cases h
    exact .nil
  | cons f rest ih =>
    obtain ⟨hf, hrest⟩ := List.forall_mem_cons.mp hdefault
    unfold defaultParts at h
    split at h
    · cases h
    · next d hd =>
      obtain ⟨ds, hds, rfl⟩ := map_eq_ok.mp h
      exact .cons ⟨rfl, hf d hd⟩ (ih hrest hds)

def ReadParts (P : StructField → Data → Prop) (parts : List (String × Data))
    (fields : List StructField) : Prop :=
  ∀ p ∈ parts, ∃ f, fields.find? (·.name == p.1) = some f ∧ P f p.2

/-- What holds of the parts that were read and of what stands for absent ones holds of all parts. -/
theorem forall₂_of_completeStruct {n : StructName} {P : StructField → Data → Prop}
    {parts : List (String × Data)} (hparts : ReadParts P parts n.fields)
    {fields : List StructField} (hmem : ∀ f ∈ fields, f ∈ n.fields)
    (habsent : ∀ f ∈ fields, ∀ d, f.absent? = some d → P f d) {whole : List (String × Data)}
    (h : completeStruct parts fields = .ok whole) :
    List.Forall₂ (fun p f => p.1 = f.name ∧ P f p.2) whole fields := by
  induction fields generalizing whole with
  | nil =>
    cases h
    exact .nil
  | cons f rest ih =>
    obtain ⟨hf, hrest⟩ := List.forall_mem_cons.mp hmem
    obtain ⟨hone, hothers⟩ := List.forall_mem_cons.mp habsent
    unfold completeStruct at h
    split at h
    · cases h
    · next d hd =>
      have hd : P f d := by
        cases hlookup : parts.lookup f.name with
        | none =>
          rw [hlookup] at hd
          exact hone d hd
        | some e =>
          obtain rfl : e = d := by simpa [hlookup] using hd
          obtain ⟨g, hg, he⟩ := hparts _ (mem_of_lookup hlookup)
          have hfg : f = g := Option.some.inj ((find_structField hf).symm.trans hg)
          rwa [hfg]
      obtain ⟨ds, hds, rfl⟩ := map_eq_ok.mp h
      exact .cons ⟨rfl, hd⟩ (ih hrest hothers hds)

theorem fitsFields_of_forall₂ {parts : List (String × Data)} {fields : List StructField}
    (h : List.Forall₂ (fun p f => p.1 = f.name ∧ Fits p.2 f.type ∧ Plain p.2) parts fields) :
    FitsFields parts fields ∧ PlainFields parts := by
  induction h with
  | nil => exact ⟨trivial, trivial⟩
  | cons hhead _ ih => exact ⟨⟨hhead.1, hhead.2.1, ih.1⟩, hhead.2.2, ih.2⟩

theorem encode_list_ne_null (items : List Data) : (Data.list items).encode ≠ .ok .null :=
  map_ne_ok fun _ => nofun

theorem encode_map_ne_null (entries : List (Data × Data)) :
    (Data.map entries).encode ≠ .ok .null :=
  map_ne_ok fun _ => nofun

theorem encode_struct_ne_null (fields : List (String × Data)) :
    (Data.struct fields).encode ≠ .ok .null :=
  map_ne_ok fun _ => nofun

theorem encode_variant_ne_null (name : String) (content : Option Data) :
    (Data.variant name content).encode ≠ .ok .null := by
  cases content with
  | none => exact nofun
  | some d => exact map_ne_ok fun _ => nofun

/-- The members of a set are the items that were read, in strict order. -/
theorem isRead_setOf {v : Json} {t : FieldType} {items : List Data} (hfits : FitsAll items t)
    (hplain : PlainItems items) : IsRead v (.set t) (setOf items) := by
  have hmem (d : Data) (hd : d ∈ items.foldl (fun s d => insertItem d s) []) : d ∈ items :=
    (mem_foldl_insertItem items [] hd).resolve_left List.not_mem_nil
  refine ⟨.inr (.inl ⟨t, rfl, fitsAll_iff.mpr fun d hd => ?_, ?_⟩), ?_, fun _ => ?_⟩
  · exact fitsAll_iff.mp hfits d (hmem d hd)
  · exact foldl_insertItem_ascending items [] List.Pairwise.nil
  · exact plainItems_iff.mpr fun d hd => plainItems_iff.mp hplain d (hmem d hd)
  · exact encode_list_ne_null _

/-- The entries of a map have keys and values that were read, the keys in strict order. -/
theorem isRead_mapOf {v : Json} {t u : FieldType} {entries : List (Data × Data)}
    (hfits : FitsEntries entries t u) (hplain : PlainEntries entries) :
    IsRead v (.map t u) (mapOf entries) := by
  obtain ⟨hkeys, hvalues⟩ := fitsEntries_iff.mp hfits
  obtain ⟨hplainKeys, hplainValues⟩ := plainEntries_iff.mp hplain
  have hmem (e : Data × Data)
      (he : e ∈ entries.foldl (fun m e => insertEntry e.1 e.2 m) []) :
      e.1 ∈ entries.map Prod.fst ∧ e.2 ∈ entries.map Prod.snd := by
    obtain ⟨hk, hv⟩ := mem_foldl_insertEntry entries [] he
    exact ⟨hk.resolve_left List.not_mem_nil, hv.resolve_left List.not_mem_nil⟩
  refine ⟨⟨t, u, rfl, fitsEntries_iff.mpr ⟨?_, ?_⟩, ?_⟩, plainEntries_iff.mpr ⟨?_, ?_⟩,
    fun _ => encode_map_ne_null _⟩
  · intro k hk
    obtain ⟨e, he, rfl⟩ := List.mem_map.mp hk
    exact hkeys _ (hmem e he).1
  · intro d hd
    obtain ⟨e, he, rfl⟩ := List.mem_map.mp hd
    exact hvalues _ (hmem e he).2
  · exact foldl_insertEntry_ascending entries [] List.Pairwise.nil
  · intro k hk
    obtain ⟨e, he, rfl⟩ := List.mem_map.mp hk
    exact hplainKeys _ (hmem e he).1
  · intro d hd
    obtain ⟨e, he, rfl⟩ := List.mem_map.mp hd
    exact hplainValues _ (hmem e he).2

mutual

/-- What is read from a value that text can express. -/
theorem isRead_decode (v : Json) (t : FieldType) (d : Data) (hv : v.Proper) (ht : t.isStable)
    (h : decode v t = .ok d) : IsRead v t d := by
  have hcore := isStable_peel ht
  cases v with
  | null => exact isRead_null h
  | bool b =>
    simp only [decode] at h
    refine isRead_within nofun h fun e he => ?_
    split at he
    · next hbool =>
      cases he
      exact ⟨by rw [hbool]; rfl, trivial, fun _ => nofun⟩
    · next hjson =>
      cases he
      exact ⟨by rw [hjson]; exact ⟨rfl, trivial⟩, trivial, fun _ => nofun⟩
    · cases he
  | integer n =>
    simp only [decode] at h
    exact isRead_within nofun h fun e he => isRead_ofNumber hv nofun hcore he
  | float x =>
    simp only [decode] at h
    exact isRead_within nofun h fun e he => isRead_ofNumber hv nofun hcore he
  | string s =>
    simp only [decode] at h
    exact isRead_within nofun h fun e he => isRead_ofText he
  | array items =>
    simp only [decode] at h
    refine isRead_within nofun h fun e he => ?_
    split at he
    · next u hu =>
      rw [hu] at hcore ⊢
      obtain ⟨ds, hds, rfl⟩ := map_eq_ok.mp he
      obtain ⟨hfits, hplain⟩ := isRead_decodeAll items u ds hv hcore hds
      exact ⟨.inl ⟨u, rfl, hfits⟩, hplain, fun _ => encode_list_ne_null _⟩
    · next u hu =>
      rw [hu] at hcore ⊢
      obtain ⟨ds, hds, rfl⟩ := map_eq_ok.mp he
      have hstable := FieldType.isStable_of_isKey u hcore
      obtain ⟨hfits, hplain⟩ := isRead_decodeAll items u ds hv hstable hds
      exact isRead_setOf hfits hplain
    · next u n hu =>
      rw [hu] at hcore ⊢
      obtain ⟨ds, hds, rfl⟩ := map_eq_ok.mp he
      have hitem : u.isStable := hcore
      have hstable := areStable_replicate hitem n
      obtain ⟨hfits, hplain⟩ := isRead_decodeEach items _ _ _ ds hv hstable hds
      exact ⟨.inr (.inr (.inl ⟨u, n, rfl, hfits⟩)), hplain, fun _ => encode_list_ne_null _⟩
    · next ts hts =>
      rw [hts] at hcore ⊢
      obtain ⟨ds, hds, rfl⟩ := map_eq_ok.mp he
      obtain ⟨hfits, hplain⟩ := isRead_decodeEach items ts _ _ ds hv hcore hds
      exact ⟨.inr (.inr (.inr ⟨ts, rfl, hfits⟩)), hplain, fun _ => encode_list_ne_null _⟩
    · next n hn =>
      rw [hn]
      obtain ⟨ds, hds, rfl⟩ := map_eq_ok.mp he
      obtain ⟨hfits, hplain⟩ := isRead_decodeParts items n n.fields _ _ ds hv
        (fun f hf => hf) hds
      exact ⟨⟨n, rfl, hfits⟩, hplain, fun _ => encode_struct_ne_null _⟩
    · next hjson =>
      cases he
      exact ⟨by rw [hjson]; exact ⟨rfl, hv⟩, trivial, fun _ => nofun⟩
    · cases he
  | object entries =>
    simp only [decode] at h
    refine isRead_within nofun h fun e he => ?_
    split at he
    · next k u hk =>
      rw [hk] at hcore ⊢
      obtain ⟨ds, hds, rfl⟩ := map_eq_ok.mp he
      obtain ⟨hfits, hplain⟩ := isRead_decodeEntries entries k u ds hv.2 hcore hds
      exact isRead_mapOf hfits hplain
    · next n hn =>
      rw [hn]
      obtain ⟨parts, hparts, he⟩ := bind_eq_ok.mp he
      obtain ⟨whole, hwhole, rfl⟩ := map_eq_ok.mp he
      have hread := isRead_decodeFields entries n parts hv.2 hparts
      obtain ⟨hfits, hplain⟩ := fitsFields_of_forall₂ <| forall₂_of_completeStruct hread
        (fun f hf => hf) (fun f hf d hd => isRead_absent hf hd) hwhole
      exact ⟨⟨n, rfl, hfits⟩, hplain, fun _ => encode_struct_ne_null _⟩
    · next n hn =>
      rw [hn]
      exact isRead_decodeVariant entries n e hv.2 he
    · next hjson =>
      cases he
      exact ⟨by rw [hjson]; exact ⟨rfl, hv⟩, trivial, fun _ => nofun⟩
    · cases he

theorem isRead_decodeAll (items : List Json) (t : FieldType) (ds : List Data)
    (hv : Json.ProperItems items) (ht : t.isStable) (h : decodeAll items t = .ok ds) :
    FitsAll ds t ∧ PlainItems ds := by
  cases items with
  | nil =>
    cases h
    exact ⟨trivial, trivial⟩
  | cons v rest =>
    obtain ⟨d, hd, h⟩ := bind_eq_ok.mp h
    obtain ⟨es, hes, h⟩ := bind_eq_ok.mp h
    cases h
    have hone := isRead_decode v t d hv.1 ht hd
    have hrest := isRead_decodeAll rest t es hv.2 ht hes
    exact ⟨⟨hone.fits, hrest.1⟩, hone.plain, hrest.2⟩

theorem isRead_decodeEach (items : List Json) (ts : List FieldType) (short long : CodecError)
    (ds : List Data) (hv : Json.ProperItems items) (ht : FieldType.areStable ts)
    (h : decodeEach items ts short long = .ok ds) : FitsEach ds ts ∧ PlainItems ds := by
  cases items with
  | nil =>
    cases ts with
    | nil =>
      cases h
      exact ⟨trivial, trivial⟩
    | cons t ts => cases h
  | cons v rest =>
    cases ts with
    | nil => cases h
    | cons t ts =>
      have hts : t.isStable ∧ FieldType.areStable ts := by simpa [FieldType.areStable] using ht
      obtain ⟨d, hd, h⟩ := bind_eq_ok.mp h
      obtain ⟨es, hes, h⟩ := bind_eq_ok.mp h
      cases h
      have hone := isRead_decode v t d hv.1 hts.1 hd
      have hrest := isRead_decodeEach rest ts short long es hv.2 hts.2 hes
      exact ⟨⟨hone.fits, hrest.1⟩, hone.plain, hrest.2⟩

theorem isRead_decodeParts (items : List Json) (n : StructName) (fields : List StructField)
    (short long : CodecError) (ds : List (String × Data)) (hv : Json.ProperItems items)
    (hmem : ∀ f ∈ fields, f ∈ n.fields) (h : decodeParts items fields short long = .ok ds) :
    FitsFields ds fields ∧ PlainFields ds := by
  cases items with
  | nil =>
    exact fitsFields_of_forall₂ <| forall₂_of_defaultParts
      (fun f hf d hd => isRead_default (hmem f hf) hd) h
  | cons v rest =>
    cases fields with
    | nil => cases h
    | cons f fields =>
      obtain ⟨d, hd, h⟩ := bind_eq_ok.mp h
      obtain ⟨es, hes, h⟩ := bind_eq_ok.mp h
      cases h
      have hstable := FieldType.isStable_structField (hmem f (List.mem_cons_self ..))
      have hone := isRead_decode v f.type d hv.1 hstable hd
      have hrest := isRead_decodeParts rest n fields short long es hv.2
        (fun g hg => hmem g (List.mem_cons_of_mem _ hg)) hes
      exact ⟨⟨rfl, hone.fits, hrest.1⟩, hone.plain, hrest.2⟩

theorem isRead_decodeEntries (entries : List (String × Json)) (k t : FieldType)
    (ds : List (Data × Data)) (hv : Json.ProperEntries entries) (ht : (FieldType.map k t).isStable)
    (h : decodeEntries entries k t = .ok ds) : FitsEntries ds k t ∧ PlainEntries ds := by
  cases entries with
  | nil =>
    cases h
    exact ⟨trivial, trivial⟩
  | cons e rest =>
    obtain ⟨key, v⟩ := e
    obtain ⟨key', hkey, h⟩ := bind_eq_ok.mp h
    obtain ⟨d, hd, h⟩ := bind_eq_ok.mp h
    obtain ⟨es, hes, h⟩ := bind_eq_ok.mp h
    cases h
    obtain ⟨rfl, hstable⟩ := FieldType.isStable_map ht
    obtain rfl : Data.string key = key' := Except.ok.inj hkey
    have hone := isRead_decode v t d hv.1 hstable hd
    have hrest := isRead_decodeEntries rest .string t es hv.2 ht hes
    exact ⟨⟨rfl, hone.fits, hrest.1⟩, trivial, hone.plain, hrest.2⟩

theorem isRead_decodeFields (entries : List (String × Json)) (n : StructName)
    (parts : List (String × Data)) (hv : Json.ProperEntries entries)
    (h : decodeFields entries n.fields = .ok parts) :
    ReadParts (fun f d => Fits d f.type ∧ Plain d) parts n.fields := by
  cases entries with
  | nil =>
    cases h
    exact fun p hp => absurd hp List.not_mem_nil
  | cons e rest =>
    obtain ⟨key, v⟩ := e
    simp only [decodeFields] at h
    split at h
    · exact isRead_decodeFields rest n parts hv.2 h
    · next f hf =>
      obtain ⟨d, hd, h⟩ := bind_eq_ok.mp h
      obtain ⟨es, hes, h⟩ := bind_eq_ok.mp h
      cases h
      have hstable := FieldType.isStable_structField (List.mem_of_find?_eq_some hf)
      have hone := isRead_decode v f.type d hv.1 hstable hd
      have hrest := isRead_decodeFields rest n es hv.2 hes
      intro p hp
      rcases List.mem_cons.mp hp with rfl | hp
      · exact ⟨f, hf, hone.fits, hone.plain⟩
      · exact hrest p hp

theorem isRead_decodeVariant (entries : List (String × Json)) (n : EnumName) (d : Data)
    (hv : Json.ProperEntries entries) (h : decodeVariant entries n = .ok d) :
    IsRead (.object entries) (.enum n) d := by
  match entries with
  | [] => cases h
  | _ :: _ :: _ => cases h
  | [(name, v)] =>
    simp only [decodeVariant] at h
    split at h
    · cases h
    · next hnone =>
      obtain ⟨_, -, rfl⟩ := map_eq_ok.mp h
      exact ⟨⟨n, rfl, hnone⟩, trivial, fun _ => encode_variant_ne_null _ _⟩
    · next t hsome =>
      obtain ⟨e, he, rfl⟩ := map_eq_ok.mp h
      have hone := isRead_decode v t e hv.1 (isStable_variant hsome) he
      exact ⟨⟨n, t, rfl, hsome, hone.fits⟩, hone.plain, fun _ => encode_variant_ne_null _ _⟩

end

end RecordStore.Data
