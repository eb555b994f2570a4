import RecordStore.Feed
import RecordStore.Proofs.Json.Text
import RecordStore.Proofs.Model.Records
import RecordStore.Store.Table

/-!
Users and posts as rows. Every record of the two models is a user or a post, its row is read as it
was stored, and the text of its key tells its identifier.
-/
namespace RecordStore

open Data

namespace Data

variable {d : Data}

/-- A value of the type of times is one. -/
theorem eq_u64_of_fits (h : Fits d .u64) : ∃ n : UInt64, d = .integer n.toNat := by
  obtain ⟨n, rfl, hn⟩ := eq_integer_of_fits h
  obtain ⟨hlow, hhigh⟩ : 0 ≤ n ∧ n ≤ 2 ^ 64 - 1 := by
    simpa [IntegerType.contains, IntegerType.unsigned] using hn
  have hlt : n.toNat < 2 ^ 64 := by omega
  refine ⟨.ofNat n.toNat, ?_⟩
  have hnat : (UInt64.ofNat n.toNat).toNat = n.toNat := UInt64.toNat_ofNat_of_lt' hlt
  rw [hnat]
  congr 1
  omega

theorem fits_u64 (n : UInt64) : Fits (.integer n.toNat) .u64 := by
  have hlt := n.toNat_lt
  refine ⟨.unsigned 64, rfl, ?_⟩
  have hhigh : (n.toNat : Int) ≤ 2 ^ 64 - 1 := by omega
  simpa [IntegerType.contains, IntegerType.unsigned] using hhigh

theorem integerJson_u64 (n : UInt64) : integerJson n.toNat = .ok (.integer n.toNat) := by
  have hlt := n.toNat_lt
  have hstorable : Json.isStorable n.toNat = true := by
    simp only [Json.isStorable, Bool.and_eq_true, decide_eq_true_eq]
    omega
  simp only [integerJson, hstorable, if_true]

end Data

namespace Feed

/-- The row of a post. -/
def Post.row (p : Post) : Values :=
  [("id", .string p.id.stored), ("sender_id", .string p.senderId), ("content", .string p.content),
    ("posted_at", .integer p.postedAt.toNat)]

/-- The row of a user, with the posts in it. -/
def User.row (u : User) : Values :=
  [("id", .string u.id.stored), ("user_id", .string u.userId), ("user_name", .string u.userName),
    ("signed_up_at", .integer u.signedUpAt.toNat), ("signed_in_at", .integer u.signedInAt.toNat),
    ("posts", .array (u.posts.map fun p => .object p.row))]

theorem Post.encodeFields_toFields (p : Post) : encodeFields p.toFields = .ok p.row := by
  simp only [Post.toFields, encodeFields, encode, integerJson_u64]
  rfl

theorem User.encodeItems_posts (ps : List Post) :
    encodeItems (ps.map Post.toData) = .ok (ps.map fun p => .object p.row) := by
  induction ps with
  | nil => rfl
  | cons p rest ih =>
    have hpost : encode p.toData = .ok (.object p.row) := by
      rw [Post.toData, encode, p.encodeFields_toFields]
      rfl
    rw [List.map_cons, encodeItems, hpost, ih]
    rfl

theorem User.encodeFields_toFields (u : User) : encodeFields u.toFields = .ok u.row := by
  simp only [User.toFields, encodeFields, encode, integerJson_u64, encodeItems_posts]
  rfl

theorem Post.toValues_eq (p : Post) : Record.toValues ⟨p.toFields, []⟩ = .ok p.row :=
  Record.toValues_eq_ok.mpr p.encodeFields_toFields

theorem User.toValues_eq (u : User) : Record.toValues ⟨u.toFields, []⟩ = .ok u.row :=
  Record.toValues_eq_ok.mpr u.encodeFields_toFields

theorem Post.fitsFields (p : Post) : FitsFields p.toFields StructName.post.fields :=
  ⟨rfl, rfl, rfl, rfl, rfl, rfl, rfl, fits_u64 _, trivial⟩

theorem Post.plainFields (p : Post) : PlainFields p.toFields :=
  ⟨trivial, trivial, trivial, trivial, trivial⟩

theorem Post.admits (p : Post) : Model.post.Admits ⟨p.toFields, []⟩ :=
  .cons ⟨rfl, rfl⟩ (.cons ⟨rfl, rfl⟩ (.cons ⟨rfl, rfl⟩ (.cons ⟨rfl, fits_u64 _⟩ .nil)))

theorem User.fits_posts (ps : List Post) :
    Fits (.list (ps.map Post.toData)) (.list (.struct .post)) := by
  refine .inl ⟨.struct .post, rfl, fitsAll_iff.mpr fun d hd => ?_⟩
  obtain ⟨p, -, rfl⟩ := List.mem_map.mp hd
  exact ⟨.post, rfl, p.fitsFields⟩

theorem User.admits (u : User) : Model.user.Admits ⟨u.toFields, []⟩ :=
  .cons ⟨rfl, rfl⟩ (.cons ⟨rfl, rfl⟩ (.cons ⟨rfl, rfl⟩ (.cons ⟨rfl, fits_u64 _⟩
    (.cons ⟨rfl, fits_u64 _⟩ (.cons ⟨rfl, fits_posts u.posts⟩ .nil)))))

theorem User.plainFields (u : User) : PlainFields u.toFields := by
  refine ⟨trivial, trivial, trivial, trivial, trivial, plainItems_iff.mpr fun d hd => ?_, trivial⟩
  obtain ⟨p, -, rfl⟩ := List.mem_map.mp hd
  exact p.plainFields

theorem sound_post : Model.post.Sound := Model.sound_of_ofName "Post" rfl

theorem sound_user : Model.user.Sound := Model.sound_of_ofName "User" rfl

theorem Post.fromValues_row (p : Post) : Model.post.fromValues p.row = .ok ⟨p.toFields, []⟩ :=
  (Model.rowReadsBack sound_post p.admits p.toValues_eq).exact p.plainFields

theorem User.fromValues_row (u : User) : Model.user.fromValues u.row = .ok ⟨u.toFields, []⟩ :=
  (Model.rowReadsBack sound_user u.admits u.toValues_eq).exact u.plainFields

theorem exists_post_of_fitsFields {fields : List (String × Data)}
    (h : FitsFields fields StructName.post.fields) : ∃ p : Post, fields = p.toFields := by
  match fields, h with
  | [(_, a), (_, b), (_, c), (_, d)], h =>
    obtain ⟨rfl, ha, rfl, hb, rfl, hc, rfl, hd, -⟩ := h
    obtain ⟨id, rfl⟩ := eq_objectId_of_fits ha
    obtain ⟨senderId, rfl⟩ := eq_string_of_fits hb
    obtain ⟨content, rfl⟩ := eq_string_of_fits hc
    obtain ⟨postedAt, rfl⟩ := eq_u64_of_fits hd
    exact ⟨⟨id, senderId, content, postedAt⟩, rfl⟩

theorem exists_posts_of_fitsAll {items : List Data} (h : FitsAll items (.struct .post)) :
    ∃ ps : List Post, items = ps.map Post.toData := by
  induction items with
  | nil => exact ⟨[], rfl⟩
  | cons d rest ih =>
    obtain ⟨fields, rfl, hfields⟩ := eq_struct_of_fits h.1
    obtain ⟨p, rfl⟩ := exists_post_of_fitsFields hfields
    obtain ⟨ps, rfl⟩ := ih h.2
    exact ⟨p :: ps, rfl⟩

theorem fieldsFit_cons {fields : List (String × Data)} {f : ModelField} {fs : List ModelField}
    (h : Model.FieldsFit fields (f :: fs)) :
    ∃ d rest, fields = (f.name, d) :: rest ∧ d.Fits f.type ∧ Model.FieldsFit rest fs := by
  cases h with
  | @cons e _ rest _ hhead htail =>
    obtain ⟨name, d⟩ := e
    obtain ⟨rfl, hfits⟩ := hhead
    exact ⟨d, rest, rfl, hfits, htail⟩

/-- Every record of the posts is that of a post. -/
theorem exists_post_of_admits {r : Record} (h : Model.post.Admits r) :
    ∃ p : Post, r.fields = p.toFields := by
  have h : Model.FieldsFit r.fields Model.post.fields := h
  unfold Model.post at h
  obtain ⟨a, rest, hr, ha, h⟩ := fieldsFit_cons h
  obtain ⟨b, rest, rfl, hb, h⟩ := fieldsFit_cons h
  obtain ⟨c, rest, rfl, hc, h⟩ := fieldsFit_cons h
  obtain ⟨d, rest, rfl, hd, h⟩ := fieldsFit_cons h
  cases h
  rw [hr]
  exact exists_post_of_fitsFields ⟨rfl, ha, rfl, hb, rfl, hc, rfl, hd, trivial⟩

/-- Every record of the users is that of a user. -/
theorem exists_user_of_admits {r : Record} (h : Model.user.Admits r) :
    ∃ u : User, r.fields = u.toFields := by
  have h : Model.FieldsFit r.fields Model.user.fields := h
  unfold Model.user at h
  obtain ⟨a, rest, hr, ha, h⟩ := fieldsFit_cons h
  obtain ⟨b, rest, rfl, hb, h⟩ := fieldsFit_cons h
  obtain ⟨c, rest, rfl, hc, h⟩ := fieldsFit_cons h
  obtain ⟨d, rest, rfl, hd, h⟩ := fieldsFit_cons h
  obtain ⟨e, rest, rfl, he, h⟩ := fieldsFit_cons h
  obtain ⟨f, rest, rfl, hf, h⟩ := fieldsFit_cons h
  cases h
  obtain ⟨id, rfl⟩ := eq_objectId_of_fits ha
  obtain ⟨userId, rfl⟩ := eq_string_of_fits hb
  obtain ⟨userName, rfl⟩ := eq_string_of_fits hc
  obtain ⟨signedUpAt, rfl⟩ := eq_u64_of_fits hd
  obtain ⟨signedInAt, rfl⟩ := eq_u64_of_fits he
  obtain ⟨items, rfl, hitems⟩ := eq_list_of_fits hf
  obtain ⟨ps, rfl⟩ := exists_posts_of_fitsAll hitems
  exact ⟨⟨id, userId, userName, signedUpAt, signedInAt, ps⟩, hr⟩

theorem exists_post_of_stores {row : Values} (h : Model.post.Stores row) :
    ∃ p : Post, row = p.row := by
  obtain ⟨r, hr, hrow⟩ := h
  obtain ⟨p, hp⟩ := exists_post_of_admits hr
  have hencode := Record.toValues_eq_ok.mp hrow
  rw [hp, p.encodeFields_toFields] at hencode
  exact ⟨p, (Except.ok.inj hencode).symm⟩

theorem exists_user_of_stores {row : Values} (h : Model.user.Stores row) :
    ∃ u : User, row = u.row := by
  obtain ⟨r, hr, hrow⟩ := h
  obtain ⟨u, hu⟩ := exists_user_of_admits hr
  have hencode := Record.toValues_eq_ok.mp hrow
  rw [hu, u.encodeFields_toFields] at hencode
  exact ⟨u, (Except.ok.inj hencode).symm⟩

theorem Post.ofFields_toFields (p : Post) : Post.ofFields? p.toFields = some p := by
  simp [Post.toFields, Post.ofFields?]

theorem User.ofFields_toFields (u : User) : User.ofFields? u.toFields = some u := by
  have hposts : (u.posts.map Post.toData).mapM Post.ofData? = some u.posts := by
    induction u.posts with
    | nil => rfl
    | cons p rest ih =>
      rw [List.map_cons, List.mapM_cons, Post.toData, Post.ofData?, p.ofFields_toFields, ih]
      rfl
  simp [User.toFields, User.ofFields?, hposts]

theorem quote_stored_inj {a b : ObjectId} (h : Json.quote a.stored = Json.quote b.stored) :
    a = b := by
  have hstored : a.stored = b.stored := (Json.quote_append_inj (congrArg (·.toList ++ []) h)).1
  have hparse := ObjectId.parse_stored a
  rw [hstored, ObjectId.parse_stored] at hparse
  exact (Except.ok.inj hparse).symm

theorem Post.keyText_row (p : Post) : Table.keyText p.row "id" = Json.quote p.id.stored := rfl

theorem User.keyText_row (u : User) : Table.keyText u.row "id" = Json.quote u.id.stored := rfl

end Feed

end RecordStore
