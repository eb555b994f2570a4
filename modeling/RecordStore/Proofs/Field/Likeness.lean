import RecordStore.Proofs.Field.Reading
import RecordStore.Proofs.Json.Equality

/-!
Values that are equal are read alike: where one can be read as a type, so can the other. The parts
of an object may come in another order, and a zero may have another sign.
-/
namespace RecordStore.Data

def CanDecode (v : Json) (t : FieldType) : Prop := ∃ d, decode v t = .ok d

def ReadsAs (v w : Json) : Prop := ∀ t, CanDecode v t → CanDecode w t

theorem exists_map_ok {ε α β : Type} {e : Except ε α} {f : α → β} :
    (∃ b, e.map f = .ok b) ↔ ∃ a, e = .ok a := by
  cases e <;> simp [Except.map]

theorem exists_bind_ok {ε α β : Type} {e : Except ε α} {f : α → Except ε β} :
    (∃ b, (e >>= f) = .ok b) ↔ ∃ a, e = .ok a ∧ ∃ b, f a = .ok b := by
  cases e <;> simp [bind, Except.bind]

theorem exists_within_ok {t : FieldType} {read : FieldType → Except CodecError Data} :
    (∃ d, within t read = .ok d) ↔ ∃ d, read t.peel.2 = .ok d := exists_map_ok

theorem exists_pure_ok {ε α : Type} {a : α} : (∃ b, (pure a : Except ε α) = .ok b) ↔ True :=
  iff_true_intro ⟨a, rfl⟩

/-- What makes of one number a value of a type does so of another. -/
theorem canDecode_float {x y : Binary64} {t : FieldType} (h : CanDecode (.float x) t) :
    CanDecode (.float y) t := by
  obtain ⟨d, hd⟩ := exists_within_ok.mp (by simpa only [CanDecode, decode] using h)
  refine (show CanDecode _ _ ↔ _ by rw [CanDecode, decode, exists_within_ok]).mpr ?_
  generalize t.peel.2 = u at hd ⊢
  cases u <;> first | exact ⟨_, rfl⟩ | cases hd

theorem exists_decodeEntries_ok {entries : List (String × Json)} {k t : FieldType} :
    (∃ es, decodeEntries entries k t = .ok es) ↔
      ∀ e ∈ entries, (∃ key, ofKey e.1 k = .ok key) ∧ CanDecode e.2 t := by
  induction entries with
  | nil => simp [decodeEntries]
  | cons e rest ih =>
    obtain ⟨key, v⟩ := e
    rw [List.forall_mem_cons, ← ih, decodeEntries]
    simp only [exists_bind_ok, exists_pure_ok, and_true, exists_and_right, and_assoc, CanDecode]

theorem exists_decodeFields_ok {entries : List (String × Json)} {fields : List StructField} :
    (∃ parts, decodeFields entries fields = .ok parts) ↔
      ∀ e ∈ entries, ∀ f, fields.find? (·.name == e.1) = some f → CanDecode e.2 f.type := by
  induction entries with
  | nil => simp [decodeFields]
  | cons e rest ih =>
    obtain ⟨key, v⟩ := e
    rw [List.forall_mem_cons, ← ih]
    cases hfind : fields.find? (·.name == key) with
    | none => simp [decodeFields, hfind]
    | some f =>
      simp only [decodeFields, hfind, exists_bind_ok, exists_pure_ok, and_true, exists_and_right,
        Option.some.injEq, forall_eq', CanDecode]

/-- The parts that were read are those that are there. -/
theorem isSome_lookup_of_decodeFields {entries : List (String × Json)} {fields : List StructField}
    {parts : List (String × Data)} (h : decodeFields entries fields = .ok parts) (name : String) :
    (parts.lookup name).isSome ↔
      name ∈ entries.map Prod.fst ∧ (fields.find? (·.name == name)).isSome := by
  induction entries generalizing parts with
  | nil =>
    cases h
    simp
  | cons e rest ih =>
    obtain ⟨key, v⟩ := e
    simp only [decodeFields] at h
    rw [List.map_cons, List.mem_cons]
    split at h
    · next hnone =>
      rw [ih h]
      refine and_congr_left fun hsome => (or_iff_right ?_).symm
      rintro rfl
      rw [hnone] at hsome
      cases hsome
    · next f hf =>
      obtain ⟨d, -, h⟩ := bind_eq_ok.mp h
      obtain ⟨read, hread, h⟩ := bind_eq_ok.mp h
      cases h
      rw [List.lookup_cons]
      by_cases hname : name = key
      · subst hname
        simp [hf]
      · rw [beq_false_of_ne hname]
        simp only [ih hread, hname, false_or]

theorem exists_completeStruct_ok {parts : List (String × Data)} {fields : List StructField} :
    (∃ all, completeStruct parts fields = .ok all) ↔
      ∀ f ∈ fields, (parts.lookup f.name).isSome ∨ f.absent?.isSome := by
  induction fields with
  | nil => simp [completeStruct]
  | cons f rest ih =>
    rw [List.forall_mem_cons, ← ih, completeStruct]
    cases hpart : parts.lookup f.name <;> cases habsent : f.absent? <;> simp [exists_map_ok]

/-- What is read of an object depends on what its entries can be read as only. -/
theorem readsAs_object {es fs : List (String × Json)}
    (hforth : ∀ e ∈ es, ∃ w, (e.1, w) ∈ fs ∧ ReadsAs e.2 w)
    (hback : ∀ f ∈ fs, ∃ v, (f.1, v) ∈ es ∧ ReadsAs v f.2) (hlength : es.length = fs.length) :
    ReadsAs (.object es) (.object fs) := by
  intro t h
  have hkeys (name : String) : name ∈ fs.map Prod.fst ↔ name ∈ es.map Prod.fst := by
    simp only [List.mem_map]
    constructor
    · rintro ⟨f, hf, rfl⟩
      obtain ⟨v, hv, -⟩ := hback f hf
      exact ⟨_, hv, rfl⟩
    · rintro ⟨e, he, rfl⟩
      obtain ⟨w, hw, -⟩ := hforth e he
      exact ⟨_, hw, rfl⟩
  rw [CanDecode, decode, exists_within_ok] at h ⊢
  generalize t.peel.2 = u at h ⊢
  cases u with
  | map k u =>
    simp only [exists_map_ok, exists_decodeEntries_ok] at h ⊢
    intro f hf
    obtain ⟨v, hv, hread⟩ := hback f hf
    exact ⟨(h _ hv).1, hread u (h _ hv).2⟩
  | struct n =>
    simp only [exists_bind_ok] at h ⊢
    obtain ⟨parts, hparts, all, hall⟩ := h
    obtain ⟨parts', hparts'⟩ : ∃ parts', decodeFields fs n.fields = .ok parts' := by
      refine exists_decodeFields_ok.mpr fun f hf g hg => ?_
      obtain ⟨v, hv, hread⟩ := hback f hf
      exact hread g.type (exists_decodeFields_ok.mp ⟨parts, hparts⟩ (f.1, v) hv g hg)
    refine ⟨parts', hparts', exists_map_ok.mpr (exists_completeStruct_ok.mpr fun f hf => ?_)⟩
    have hcomplete := exists_completeStruct_ok.mp (exists_map_ok.mp ⟨all, hall⟩) f hf
    rwa [isSome_lookup_of_decodeFields hparts', hkeys, ← isSome_lookup_of_decodeFields hparts]
  | enum n =>
    match es, hforth, hlength, h with
    | [(name, v)], hforth, hlength, h =>
      obtain ⟨⟨name', w⟩, rfl⟩ := List.length_eq_one_iff.mp hlength.symm
      obtain ⟨w', hw', hread⟩ := hforth (name, v) (List.mem_cons_self ..)
      obtain ⟨rfl, rfl⟩ := Prod.mk.inj (List.mem_singleton.mp hw')
      simp only [decodeVariant] at h ⊢
      cases hvariant : n.variants.lookup name with
      | none =>
        rw [hvariant] at h
        obtain ⟨d, hd⟩ := h
        cases hd
      | some content =>
        rw [hvariant] at h
        cases content with
        | none => exact exists_map_ok.mpr (hread .unit (exists_map_ok.mp h))
        | some u => exact exists_map_ok.mpr (hread u (exists_map_ok.mp h))
  | json => exact ⟨_, rfl⟩
  | _ =>
    obtain ⟨d, hd⟩ := h
    cases hd

section

variable {items others : List Json}

theorem readsAs_all (h : List.Forall₂ ReadsAs items others) {t : FieldType}
    (hread : ∃ ds, decodeAll items t = .ok ds) : ∃ ds, decodeAll others t = .ok ds := by
  induction h with
  | nil => exact hread
  | cons hhead _ ih =>
    simp only [decodeAll, exists_bind_ok, exists_pure_ok, and_true, exists_and_right] at hread ⊢
    exact ⟨hhead t hread.1, ih hread.2⟩

/-- Items that are read one by one can be exchanged for items that are read alike. -/
theorem readsAs_each (h : List.Forall₂ ReadsAs items others) {ts : List FieldType}
    {short long short' long' : CodecError}
    (hread : ∃ ds, decodeEach items ts short long = .ok ds) :
    ∃ ds, decodeEach others ts short' long' = .ok ds := by
  induction h generalizing ts with
  | nil =>
    cases ts with
    | nil => exact hread
    | cons t ts =>
      obtain ⟨ds, hds⟩ := hread
      cases hds
  | cons hhead _ ih =>
    cases ts with
    | nil =>
      obtain ⟨ds, hds⟩ := hread
      cases hds
    | cons t ts =>
      simp only [decodeEach, exists_bind_ok, exists_pure_ok, and_true, exists_and_right] at hread ⊢
      exact ⟨hhead t hread.1, ih hread.2⟩

theorem exists_defaultParts_ok {short : CodecError} {fields : List StructField} :
    (∃ parts, defaultParts short fields = .ok parts) ↔ ∀ f ∈ fields, f.default?.isSome := by
  induction fields with
  | nil => simp [defaultParts]
  | cons f rest ih =>
    rw [List.forall_mem_cons, ← ih, defaultParts]
    cases f.default? <;> simp [exists_map_ok]

theorem readsAs_parts (h : List.Forall₂ ReadsAs items others) {fields : List StructField}
    {short long short' long' : CodecError}
    (hread : ∃ parts, decodeParts items fields short long = .ok parts) :
    ∃ parts, decodeParts others fields short' long' = .ok parts := by
  induction h generalizing fields with
  | nil => exact exists_defaultParts_ok.mpr (exists_defaultParts_ok.mp hread)
  | cons hhead _ ih =>
    cases fields with
    | nil =>
      obtain ⟨parts, hparts⟩ := hread
      cases hparts
    | cons f fields =>
      simp only [decodeParts, exists_bind_ok, exists_pure_ok, and_true, exists_and_right]
        at hread ⊢
      exact ⟨hhead f.type hread.1, ih hread.2⟩

/-- What is read of an array depends on what its items can be read as only. -/
theorem readsAs_array (h : List.Forall₂ ReadsAs items others) :
    ReadsAs (.array items) (.array others) := by
  intro t hread
  rw [CanDecode, decode, exists_within_ok] at hread ⊢
  generalize t.peel.2 = u at hread ⊢
  cases u with
  | list u => exact exists_map_ok.mpr (readsAs_all h (exists_map_ok.mp hread))
  | set u => exact exists_map_ok.mpr (readsAs_all h (exists_map_ok.mp hread))
  | array u n => exact exists_map_ok.mpr (readsAs_each h (exists_map_ok.mp hread))
  | tuple ts => exact exists_map_ok.mpr (readsAs_each h (exists_map_ok.mp hread))
  | struct n => exact exists_map_ok.mpr (readsAs_parts h (exists_map_ok.mp hread))
  | json => exact ⟨_, rfl⟩
  | _ =>
    obtain ⟨d, hd⟩ := hread
    cases hd

end

mutual

/-- Of two equal values the second can be read as whatever the first can. -/
theorem readsAs_of_same (v w : Json) (hv : v.Proper) (hw : w.Proper) (h : v.same w = true) :
    ReadsAs v w := by
  cases v with
  | array items =>
    cases w <;> try exact absurd h Bool.false_ne_true
    case array others => exact readsAs_array (readsAs_of_sameItems items others hv hw h)
  | object es =>
    cases w <;> try exact absurd h Bool.false_ne_true
    case object fs =>
      obtain ⟨hlength, hforth, hback⟩ := Json.entries_of_same hv hw h
      have hreads := readsAs_of_sameEntries es hv.2
      have hproper := Json.properEntries_iff.mp hw.2
      refine readsAs_object (fun e he => ?_) (fun f hf => ?_) hlength
      · obtain ⟨w, hmem, hsame⟩ := hforth e he
        exact ⟨w, hmem, hreads e he w (hproper _ hmem) hsame⟩
      · obtain ⟨v, hmem, hsame⟩ := hback f hf
        exact ⟨v, hmem, hreads _ hmem f.2 (hproper _ hf) hsame⟩
  | float x =>
    cases w <;> try exact absurd h Bool.false_ne_true
    exact fun _ hread => canDecode_float hread
  | _ =>
    cases w <;> first
      | exact absurd h Bool.false_ne_true
      | (obtain rfl := of_decide_eq_true h; exact fun _ hread => hread)
      | exact fun _ hread => hread

/-- Equal items are read alike. -/
theorem readsAs_of_sameItems (items others : List Json) (hv : Json.ProperItems items)
    (hw : Json.ProperItems others) (h : Json.sameItems items others = true) :
    List.Forall₂ ReadsAs items others := by
  cases items with
  | nil =>
    cases others with
    | nil => exact .nil
    | cons w others => exact absurd h Bool.false_ne_true
  | cons v items =>
    cases others with
    | nil => exact absurd h Bool.false_ne_true
    | cons w others =>
      obtain ⟨hhead, hrest⟩ := Bool.and_eq_true_iff.mp h
      exact .cons (readsAs_of_same v w hv.1 hw.1 hhead)
        (readsAs_of_sameItems items others hv.2 hw.2 hrest)

theorem readsAs_of_sameEntries (es : List (String × Json)) (hv : Json.ProperEntries es) :
    ∀ e ∈ es, ∀ w : Json, w.Proper → e.2.same w = true → ReadsAs e.2 w := by
  cases es with
  | nil => exact fun _ h => absurd h List.not_mem_nil
  | cons first rest =>
    obtain ⟨k, v⟩ := first
    intro e he w hw h
    rcases List.mem_cons.mp he with rfl | he
    · exact readsAs_of_same v w hv.1 hw h
    · exact readsAs_of_sameEntries rest hv.2 e he w hw h

end

end RecordStore.Data
