import RecordStore.Proofs.Field.Likeness
import RecordStore.Proofs.Field.RoundTrip

/-!
Values that are read back as themselves or not at all. A type is faithful where no option is around
a type whose values may be stored as null; a value of such a type whose stored form can be read
holds nothing that is lost there, and so it is itself what is read.
-/
namespace RecordStore

namespace FieldType

theorem isFaithful_structField {n : StructName} {f : StructField} (h : f ∈ n.fields) :
    f.type.isFaithful := by
  cases n <;> simp [StructName.fields] at h <;> aesop

theorem isFaithful_variant {n : EnumName} {name : String} {t : FieldType}
    (h : n.variants.lookup name = some (some t)) : t.isFaithful := by
  have hmem : (name, some t) ∈ n.variants := mem_of_lookup h
  cases n
  simp only [EnumName.variants, List.mem_cons, List.not_mem_nil, or_false, Prod.mk.injEq] at hmem
  rcases hmem with ⟨-, hn⟩ | ⟨-, hn⟩ | ⟨-, hs⟩
  · cases hn
  · cases hn
  · cases hs
    rfl

theorem areFaithful_replicate {t : FieldType} (h : t.isFaithful) (n : Nat) :
    areFaithful (List.replicate n t) := by
  induction n with
  | zero => rfl
  | succ n ih => simp [List.replicate_succ, areFaithful, h, ih]

end FieldType

namespace Data

theorem canDecode_unbox {v : Json} {t : FieldType} : CanDecode v t.unbox ↔ CanDecode v t := by
  rw [CanDecode, decode_unbox]
  rfl

mutual

/-- What can be read from its stored form loses nothing there. -/
theorem plain_of_canDecode (d : Data) (t : FieldType) (v : Json) (hfits : Fits d t)
    (hstable : t.isStable) (hfaithful : t.isFaithful) (hv : d.encode = .ok v)
    (hread : CanDecode v t) : Plain d := by
  rw [← FieldType.isStable_unbox] at hstable
  rw [← FieldType.isFaithful_unbox] at hfaithful
  rw [← canDecode_unbox] at hread
  cases d with
  | float x =>
    obtain ⟨p, hp⟩ := hfits
    rw [hp] at hread
    by_contra hx
    have hx : x.isFinite = false := by simpa [Plain] using hx
    obtain rfl : v = .null := by simpa [encode, floatJson, hx] using hv.symm
    obtain ⟨e, he⟩ := hread
    cases he
  | present d =>
    obtain ⟨u, hu, hd⟩ := hfits
    rw [hu] at hstable hfaithful hread
    obtain ⟨hnull, hinner⟩ : u.storesNull = false ∧ u.isFaithful := by
      simpa [FieldType.isFaithful] using hfaithful
    have hne : d.encode ≠ .ok .null := encode_ne_null hd hnull
    have hv : d.encode = .ok v := hv
    obtain ⟨e, he⟩ := hread
    rw [decode_option (fun h => hne (h ▸ hv))] at he
    obtain ⟨e, he, -⟩ := map_eq_ok.mp he
    exact ⟨hne, plain_of_canDecode d u v hd hstable hinner hv ⟨e, he⟩⟩
  | list items =>
    obtain ⟨vs, hvs, rfl⟩ := encode_eq_ok_list.mp hv
    rcases hfits with ⟨u, hu, hitems⟩ | ⟨u, hu, hitems, -⟩ | ⟨u, n, hu, hitems⟩ | ⟨ts, hu, hitems⟩
    · rw [hu] at hstable hfaithful hread
      rw [CanDecode, decode_list, exists_map_ok] at hread
      exact plainItems_of_decodeAll items u vs hitems hstable hfaithful hvs hread
    · rw [hu] at hstable
      exact plainItems_of_isKey items u hitems hstable
    · rw [hu] at hstable hfaithful hread
      rw [CanDecode, decode_array, exists_map_ok] at hread
      have hstable : u.isStable := hstable
      have hfaithful : u.isFaithful := hfaithful
      exact plainItems_of_decodeEach items _ vs hitems (areStable_replicate hstable n)
        (FieldType.areFaithful_replicate hfaithful n) hvs hread
    · rw [hu] at hstable hfaithful hread
      rw [CanDecode, decode_tuple, exists_map_ok] at hread
      exact plainItems_of_decodeEach items ts vs hitems hstable hfaithful hvs hread
  | map entries =>
    obtain ⟨k, u, hu, hentries, -⟩ := hfits
    rw [hu] at hstable hfaithful hread
    obtain ⟨rfl, hstable⟩ := FieldType.isStable_map hstable
    rw [encode] at hv
    obtain ⟨es, hes, rfl⟩ := map_eq_ok.mp hv
    rw [CanDecode, decode_map, exists_map_ok] at hread
    exact plainEntries_of_decodeEntries entries u es hentries hstable hfaithful hes hread
  | struct fields =>
    obtain ⟨n, hu, hfields⟩ := hfits
    rw [hu] at hread
    rw [encode] at hv
    obtain ⟨es, hes, rfl⟩ := map_eq_ok.mp hv
    rw [CanDecode, decode_struct, exists_bind_ok] at hread
    obtain ⟨parts, hparts, -⟩ := hread
    exact plainFields_of_decodeFields fields n n.fields es (fun f hf => hf) hfields hes
      ⟨parts, hparts⟩
  | variant name content =>
    cases content with
    | none => trivial
    | some d =>
      obtain ⟨n, u, hu, hname, hd⟩ := hfits
      rw [hu] at hread
      rw [encode] at hv
      obtain ⟨w, hw, rfl⟩ := map_eq_ok.mp hv
      rw [CanDecode, decode_enum, decodeVariant, hname, exists_map_ok] at hread
      exact plain_of_canDecode d u w hd (isStable_variant hname)
        (FieldType.isFaithful_variant hname) hw hread
  | _ => trivial

theorem plainItems_of_decodeAll (items : List Data) (t : FieldType) (vs : List Json)
    (hfits : FitsAll items t) (hstable : t.isStable) (hfaithful : t.isFaithful)
    (hvs : encodeItems items = .ok vs) (hread : ∃ es, decodeAll vs t = .ok es) :
    PlainItems items := by
  cases items with
  | nil => trivial
  | cons d rest =>
    obtain ⟨v, hv, hvs⟩ := bind_eq_ok.mp hvs
    obtain ⟨ws, hws, hvs⟩ := bind_eq_ok.mp hvs
    cases hvs
    simp only [decodeAll, exists_bind_ok, exists_pure_ok, and_true, exists_and_right] at hread
    exact ⟨plain_of_canDecode d t v hfits.1 hstable hfaithful hv hread.1,
      plainItems_of_decodeAll rest t ws hfits.2 hstable hfaithful hws hread.2⟩

theorem plainItems_of_decodeEach (items : List Data) (ts : List FieldType) (vs : List Json)
    {short long : CodecError} (hfits : FitsEach items ts) (hstable : FieldType.areStable ts)
    (hfaithful : FieldType.areFaithful ts) (hvs : encodeItems items = .ok vs)
    (hread : ∃ es, decodeEach vs ts short long = .ok es) : PlainItems items := by
  cases items with
  | nil => trivial
  | cons d rest =>
    cases ts with
    | nil => exact absurd hfits (by simp [FitsEach])
    | cons t ts =>
      obtain ⟨hstable, hstables⟩ : t.isStable ∧ FieldType.areStable ts := by
        simpa [FieldType.areStable] using hstable
      obtain ⟨hfaithful, hfaithfuls⟩ : t.isFaithful ∧ FieldType.areFaithful ts := by
        simpa [FieldType.areFaithful] using hfaithful
      obtain ⟨v, hv, hvs⟩ := bind_eq_ok.mp hvs
      obtain ⟨ws, hws, hvs⟩ := bind_eq_ok.mp hvs
      cases hvs
      simp only [decodeEach, exists_bind_ok, exists_pure_ok, and_true, exists_and_right] at hread
      exact ⟨plain_of_canDecode d t v hfits.1 hstable hfaithful hv hread.1,
        plainItems_of_decodeEach rest ts ws hfits.2 hstables hfaithfuls hws hread.2⟩

theorem plainEntries_of_decodeEntries (entries : List (Data × Data)) (t : FieldType)
    (vs : List (String × Json)) (hfits : FitsEntries entries .string t) (hstable : t.isStable)
    (hfaithful : t.isFaithful) (hvs : encodeEntries entries = .ok vs)
    (hread : ∃ es, decodeEntries vs .string t = .ok es) : PlainEntries entries := by
  cases entries with
  | nil => trivial
  | cons e rest =>
    obtain ⟨k, d⟩ := e
    obtain ⟨key, -, hvs⟩ := bind_eq_ok.mp hvs
    obtain ⟨v, hv, hvs⟩ := bind_eq_ok.mp hvs
    obtain ⟨ws, hws, hvs⟩ := bind_eq_ok.mp hvs
    cases hvs
    obtain ⟨hk, hd, hrest⟩ := hfits
    obtain ⟨text, rfl⟩ := eq_string_of_fits hk
    simp only [decodeEntries, exists_bind_ok, exists_pure_ok, and_true, exists_and_right] at hread
    exact ⟨trivial, plain_of_canDecode d t v hd hstable hfaithful hv hread.2.1,
      plainEntries_of_decodeEntries rest t ws hrest hstable hfaithful hws hread.2.2⟩

theorem plainFields_of_decodeFields (fields : List (String × Data)) (n : StructName)
    (parts : List StructField) (vs : Values) (hmem : ∀ f ∈ parts, f ∈ n.fields)
    (hfits : FitsFields fields parts) (hvs : encodeFields fields = .ok vs)
    (hread : ∃ es, decodeFields vs n.fields = .ok es) : PlainFields fields := by
  cases fields with
  | nil => trivial
  | cons e rest =>
    cases parts with
    | nil => exact absurd hfits (by simp [FitsFields])
    | cons f fs =>
      obtain ⟨name, d⟩ := e
      obtain ⟨v, hv, hvs⟩ := bind_eq_ok.mp hvs
      obtain ⟨ws, hws, hvs⟩ := bind_eq_ok.mp hvs
      cases hvs
      obtain ⟨rfl, hd, hrest⟩ := hfits
      have hf := hmem f (List.mem_cons_self ..)
      simp only [decodeFields, find_structField hf, exists_bind_ok, exists_pure_ok, and_true,
        exists_and_right] at hread
      exact ⟨plain_of_canDecode d f.type v hd (FieldType.isStable_structField hf)
          (FieldType.isFaithful_structField hf) hv hread.1,
        plainFields_of_decodeFields rest n fs ws (fun g hg => hmem g (List.mem_cons_of_mem _ hg))
          hrest hws hread.2⟩

end

/-- What is read from the stored form of a value of a faithful type is the value. -/
theorem eq_of_decode {d e : Data} {t : FieldType} {v : Json} (hfits : Fits d t)
    (hstable : t.isStable) (hfaithful : t.isFaithful) (hv : d.encode = .ok v)
    (hread : decode v t = .ok e) : e = d := by
  have hplain := plain_of_canDecode d t v hfits hstable hfaithful hv ⟨e, hread⟩
  exact Except.ok.inj (hread.symm.trans ((readsBack d t v hfits hstable hv).exact hplain))

-- An option does not tell a number that is not finite from none: such a type is not faithful.
example : (Data.present (.float .nan)).encode = .ok .null ∧
    decode .null (.option .f64) = .ok .absent ∧ (FieldType.option .f64).isFaithful = false :=
  ⟨rfl, rfl, rfl⟩

end Data

end RecordStore
