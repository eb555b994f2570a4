import RecordStore.Proofs.Model.Faithful
import RecordStore.Proofs.Store.Recognition

/-!
What stored forms keep. A value that loses nothing when it is stored is read back as itself, and
what is read back from a value that does lose something is stored in the same form again. The
exception are sets: members that differ only in what is lost are read back as one. The rows that a
model can read are stored forms of its records where all other models that write to its table are
apart from it, and so reading keeps them; a row of another model may be readable without being such
a form.
-/
namespace RecordStore

open Data

/-- What the stored forms of the values of a type keep. -/
structure FieldType.KeepsForms (t : FieldType) : Prop where
  again : ∀ {d : Data} {v : Json} {e : Data}, d.Fits t → d.encode = .ok v → d.SetsApart t →
    decode v t = .ok e → e.encode = .ok v
  exact : ∀ {d : Data} {v : Json}, d.Fits t → d.encode = .ok v → d.Plain → decode v t = .ok d

/-- What the rows of the records of a model keep, and those that it can read of a store to which no
other models have written than ones apart from it. -/
structure Model.KeepsRows (m : Model) : Prop where
  again : ∀ {r : Record} {row : Values} {r' : Record}, m.Admits r → r.toValues = .ok row →
    m.SetsApart r.fields → m.fromValues row = .ok r' → r'.toValues = .ok row
  exact : ∀ {r : Record} {row : Values}, m.Admits r → r.toValues = .ok row →
    PlainFields r.fields → m.fromValues row = .ok { r with transient := m.defaults }
  stored : m.Sound → ∀ (identifier : String) {events : List Store.Event},
    (∀ e ∈ events, e.Typed m.Apart) →
      ∀ row ∈ ((Store.after { identifier := identifier } events).tables.table m.typeName).values,
        ∀ {r : Record}, m.fromValues row = .ok r → r.toValues = .ok row

variable {t : FieldType} {m : Model}

theorem FieldType.keepsForms (ht : t.isReadable) : t.KeepsForms where
  again hfits hv hapart he := (readsBack_of_setsApart _ t _ hfits ht hapart hv).again _ he
  exact hfits hv hplain :=
    (readsBack_of_setsApart _ t _ hfits ht (setsApart_of_plain _ t hplain) hv).exact hplain

theorem Model.setsApart_of_plainFields {fields : List (String × Data)} (h : PlainFields fields) :
    m.SetsApart fields :=
  fun e he f _ _ => setsApart_of_plain e.2 f.type (plainFields_iff.mp h e he)

theorem Model.Regular.keepsRows (hm : m.Regular) : m.KeepsRows where
  again hr hrow hapart hr' := (hm.rowReadsBack hr hapart hrow).again _ hr'
  exact hr hrow hplain := (hm.rowReadsBack hr (setsApart_of_plainFields hplain) hrow).exact hplain
  stored hsound identifier _ hevents row hrow _ hr :=
    toValues_of_fromValues hsound ((Store.recognizes_after identifier hevents).own row hrow ⟨_, hr⟩)
      hr

/-- Storing keeps what values, records and the rows that a model recognizes hold. -/
theorem keepsForms_and_keepsRows (ht : t.isReadable) (hm : m.Regular) :
    t.KeepsForms ∧ m.KeepsRows :=
  ⟨FieldType.keepsForms ht, hm.keepsRows⟩

/-- Sets over two options keep none apart from what is there, and so do the rows of a blob. -/
theorem keepsForms_and_keepsRows_optionSet :
    (FieldType.set (.option (.option .u8))).isReadable ∧ Model.blob.Regular ∧
      decode (.array [.null, .integer 7]) (.set (.option (.option .u8))) =
        .ok (.list [.absent, .present (.present (.integer 7))]) ∧
      Model.blob.KeepsRows := by
  have hblob : Model.blob.Regular := (Model.sound_of_ofName "Blob" rfl).regular
  have hkeeps := keepsForms_and_keepsRows
    (show (FieldType.set (.option (.option .u8))).isReadable from rfl) hblob
  refine ⟨rfl, hblob, hkeeps.1.exact ?_ rfl ?_, hkeeps.2⟩
  · refine .inr (.inl ⟨_, rfl, ⟨⟨_, rfl⟩, ⟨_, rfl, _, rfl, _, rfl, by decide⟩, trivial⟩, ?_⟩)
    exact List.pairwise_pair.mpr rfl
  · exact ⟨trivial, ⟨nofun, nofun, trivial⟩, trivial⟩

def notedAccount : Values :=
  [("id", .string "x"), ("owner", .string "o"), ("balance", .integer 5), ("note", .integer 1)]

def notedHistory : List Store.Event := [
  .write (.volatile "db") (.call
    (.add .rawAccount ⟨notedAccount.map fun (name, v) => (name, .json v), []⟩)
    fun _ => .finish (.ok ()))]

theorem typed_notedHistory : ∀ e ∈ notedHistory, e.Typed Model.Sound := by
  intro e he
  obtain rfl := List.mem_singleton.mp he
  refine ⟨⟨Model.sound_rawAccount, by decide, fun e he => ?_⟩, fun _ _ => trivial⟩
  obtain ⟨e', he', rfl⟩ := List.mem_map.mp he
  refine ⟨e'.2, rfl, ?_⟩
  simp only [notedAccount, List.mem_cons, List.not_mem_nil, or_false] at he'
  rcases he' with rfl | rfl | rfl | rfl <;> trivial

/-- An absent member and one that is present without a value are stored alike, and a set of both is
read back with one of them. A row of another model is read back without the keys that the model does
not have. -/
theorem not_keepsForms_nor_rows :
    ¬(∀ (t : FieldType) (d : Data) (v : Json) (e : Data), t.isReadable → d.Fits t →
      d.encode = .ok v → decode v t = .ok e → ∃ w, e.encode = .ok w ∧ w.same v) ∧
    ¬(∀ (m : Model) (events : List Store.Event), m.Sound → (∀ e ∈ events, e.Typed Model.Sound) →
      ∀ row ∈ ((Store.after { identifier := "db" } events).tables.table m.typeName).values,
        ∀ r, m.fromValues row = .ok r → ∃ row', r.toValues = .ok row' ∧ row'.same row) := by
  constructor
  · intro h
    have hfits : Data.Fits (.list [.absent, .present .absent])
        (.set (.option (.option .u8))) := by
      refine .inr (.inl ⟨_, rfl, ⟨⟨_, rfl⟩, ⟨_, rfl, _, rfl⟩, trivial⟩, ?_⟩)
      exact List.pairwise_pair.mpr rfl
    obtain ⟨w, hw, hsame⟩ := h (.set (.option (.option .u8))) (.list [.absent, .present .absent])
      (.array [.null, .null]) (.list [.absent]) rfl hfits rfl rfl
    obtain rfl : w = .array [.null] := (Except.ok.inj hw).symm
    cases hsame
  · intro h
    have hrow : notedAccount ∈ ((Store.after { identifier := "db" } notedHistory).tables.table
        "Account").values := List.mem_singleton.mpr rfl
    obtain ⟨row', hrow', hsame⟩ := h .account notedHistory Model.sound_account typed_notedHistory
      notedAccount hrow _ rfl
    obtain rfl := Except.ok.inj hrow'
    revert hsame
    decide

end RecordStore
