import RecordStore.Proofs.Feed.Rows
import RecordStore.Proofs.Store.History

/-!
Publishing is two writes, and each is done or not. Whatever the tables hold, nothing is done where
the index has the identifier of the post, the post stays stored alone where its author cannot be
found, read or written, and otherwise the post is the last one stored and the last of its author's.
-/
namespace RecordStore

open Table (keyText)

def Table.under? (t : Table) (key : String) : Option (Nat × Values) :=
  (t.keys.lookup key).bind fun n => (t.row? n).map (n, ·)

def Table.withRow (t : Table) (key : String) (row : Values) : Table :=
  ⟨t.rows ++ [(t.nextRow, row)], t.keys ++ [(key, t.nextRow)], t.nextRow + 1⟩

theorem Table.under_eq_some {t : Table} {key : String} {n : Nat} {row : Values} :
    t.under? key = some (n, row) ↔ t.keys.lookup key = some n ∧ t.row? n = some row := by
  simp [Table.under?, Option.bind_eq_some_iff]

namespace Feed

def User.withPost (author copy : User) (p : Post) (signedInAt : UInt64) : User :=
  { author with signedInAt := signedInAt, posts := copy.posts ++ [p] }

def changes (copy : User) (p : Post) (signedInAt : UInt64) : List (String × Data) :=
  [("signed_in_at", .integer signedInAt.toNat),
    ("posts", .list ((copy.posts ++ [p]).map Post.toData))]

abbrev posting (p : Post) : Access := .create Model.post p.row

abbrev embedding (u : User) (p : Post) (signedInAt : UInt64) : Access :=
  .modify Model.user (.primaryKey (.string u.id.stored)) (·.setAll (changes u p signedInAt))

/-- Why the author of a post cannot be written: no row has its identifier, the row cannot be read,
or it spells its own identifier in a way that it would not be written. -/
inductive Unwritable (t : Table) (u : User) : StoreError → Prop
  | missing (h : t.under? (Json.quote u.id.stored) = none) :
    Unwritable t u (.objectNotFound "User")
  | unreadable {n : Nat} {row : Values} {e : StoreError}
      (h : t.under? (Json.quote u.id.stored) = some (n, row))
      (hread : Model.user.fromValues row = .error e) : Unwritable t u e
  | respelled {n : Nat} {row : Values} {author : User}
      (h : t.under? (Json.quote u.id.stored) = some (n, row))
      (hread : Model.user.fromValues row = .ok ⟨author.toFields, []⟩)
      (hkey : keyText row "id" ≠ Json.quote author.id.stored) :
    Unwritable t u (.primaryKeyChanged "User" (keyText row "id") (Json.quote author.id.stored))

/-- What comes of publishing a post through a user value, whatever the tables hold. -/
inductive Published (s : Store) (u : User) (p : Post) (signedInAt : UInt64) :
    Except StoreError Post × User × Store → Prop
  | taken (htaken : ((s.tables.table "Post").keys.lookup (Json.quote p.id.stored)).isSome) :
    Published s u p signedInAt
      (.error (.duplicatePrimaryKey "Post" (Json.quote p.id.stored)), u, s)
  | orphaned {e : StoreError} {s' : Store}
      (hfresh : (s.tables.table "Post").keys.lookup (Json.quote p.id.stored) = none)
      (hauthor : Unwritable (s.tables.table "User") u e)
      (hposts : s'.tables.table "Post" =
        (s.tables.table "Post").withRow (Json.quote p.id.stored) p.row)
      (hothers : ∀ typeName, typeName ≠ "Post" →
        s'.tables.table typeName = s.tables.table typeName) :
    Published s u p signedInAt (.error e, u, s')
  | embedded {n : Nat} {row : Values} {author : User} {s' : Store}
      (hfresh : (s.tables.table "Post").keys.lookup (Json.quote p.id.stored) = none)
      (hauthor : (s.tables.table "User").under? (Json.quote u.id.stored) = some (n, row))
      (hread : Model.user.fromValues row = .ok ⟨author.toFields, []⟩)
      (hkey : keyText row "id" = Json.quote author.id.stored)
      (hposts : s'.tables.table "Post" =
        (s.tables.table "Post").withRow (Json.quote p.id.stored) p.row)
      (husers : s'.tables.table "User" = { s.tables.table "User" with
        rows := Table.replaceRow n (author.withPost u p signedInAt).row
          (s.tables.table "User").rows })
      (hothers : ∀ typeName, typeName ≠ "User" → typeName ≠ "Post" →
        s'.tables.table typeName = s.tables.table typeName) :
    Published s u p signedInAt (.ok p, author.withPost u p signedInAt, s')

theorem transact_lift {α β : Type} (s : Store) {e : Except StoreError α} {a : α} (h : e = .ok a)
    (body : α → Transact β) : s.transact (do body (← e)) = s.transact (body a) := by
  have hbody : outcome (do body (← e) : Transact β) s.begin = outcome (body a) s.begin := by
    rw [Outcome.bind_eq, Outcome.lift_eq, h]
  rw [Store.transact_eq, hbody, ← Store.transact_eq]

theorem User.identity_eq (u : User) : u.identity = .ok (.primaryKey (.string u.id.stored)) := by
  have hkey : Model.user.primaryKey? = some "id" := rfl
  rw [User.identity, Model.identity, u.toValues_eq, hkey]
  rfl

theorem setAll_changes (author copy : User) (p : Post) (signedInAt : UInt64) :
    Record.setAll ⟨author.toFields, []⟩ (changes copy p signedInAt) =
      ⟨(author.withPost copy p signedInAt).toFields, []⟩ := by
  rfl

theorem adopt_withPost (author u : User) (p : Post) (signedInAt : UInt64) :
    u.adopt ⟨(author.withPost u p signedInAt).toFields, []⟩ = author.withPost u p signedInAt := by
  show (User.ofFields? (author.withPost u p signedInAt).toFields).getD u = _
  rw [User.ofFields_toFields, Option.getD_some]

/-- What publishing comes to, by what its two writes come to on their tables. -/
inductive Wrote (s : Store) (u : User) (p : Post) (signedInAt : UInt64) :
    Except StoreError Post × User × Store → Prop
  | nothing {e : StoreError}
      (hpost : (posting p).attempt (s.tables.table "Post") = .error e) :
    Wrote s u p signedInAt (.error e, u, s)
  | post {r : Record} {t : Table} {e : StoreError} {s' : Store}
      (hpost : (posting p).attempt (s.tables.table "Post") = .ok (r, t))
      (hauthor : (embedding u p signedInAt).attempt (s.tables.table "User") = .error e)
      (htables : s'.tables.table = Function.update s.tables.table "Post" t) :
    Wrote s u p signedInAt (.error e, u, s')
  | both {r r' : Record} {t t' : Table} {s₁ s' : Store}
      (hpost : (posting p).attempt (s.tables.table "Post") = .ok (r, t))
      (hauthor : (embedding u p signedInAt).attempt (s.tables.table "User") = .ok (r', t'))
      (hposted : s₁.tables.table = Function.update s.tables.table "Post" t)
      (htables : s'.tables.table = Function.update s₁.tables.table "User" t') :
    Wrote s u p signedInAt (.ok p, u.adopt r', s')

/-- Publishing is a write of the post, and after it one of the author. -/
theorem wrote (s : Store) (u : User) (id : ObjectId) (postedAt signedInAt : UInt64)
    (content : String) : Wrote s u ⟨id, u.userId, content, postedAt⟩ signedInAt
      (publish s u id postedAt signedInAt content) := by
  -- unfolded as a function: where it is applied to values, checking that would run it
  have hpublish : publish = publish := rfl
  conv_rhs at hpublish => delta publish
  rw [hpublish]
  beta_reduce
  extract_lets p
  have hposting : s.transact (create Model.post p.toFields) = s.transact (posting p).perform :=
    transact_lift s p.toValues_eq (Transact.create Model.post)
  have hembedding (s₁ : Store) : s₁.transact (writePosts u (u.posts ++ [p]) signedInAt) =
      s₁.transact (embedding u p signedInAt).perform :=
    transact_lift s₁ u.identity_eq _
  rw [hposting]
  simp only [hembedding]
  cases hpost : (posting p).attempt (s.tables.table "Post") with
  | error e =>
    rw [Store.transact_of_error hpost]
    exact .nothing hpost
  | ok result =>
    obtain ⟨s₁, hs₁, htables⟩ := Store.transact_of_ok hpost
    rw [hs₁]
    have huser : s₁.tables.table "User" = s.tables.table "User" := by
      have hne : "User" ≠ "Post" := by decide
      rw [htables]
      exact Function.update_of_ne hne ..
    cases hauthor : (embedding u p signedInAt).attempt (s.tables.table "User") with
    | error e =>
      simp only [Store.transact_of_error (huser ▸ hauthor)]
      exact .post hpost hauthor htables
    | ok result' =>
      obtain ⟨s₂, hs₂, htables'⟩ := Store.transact_of_ok (huser ▸ hauthor)
      simp only [hs₂]
      exact .both hpost hauthor htables htables'

end Feed

namespace Access

variable {m : Model} {field : String} {t : Table} {row : Values} {r : Record}

/-- A record is created at the end, unless the index has its key. -/
theorem attempt_create (hkey : m.primaryKey? = some field) (hread : m.fromValues row = .ok r)
    (hrow : r.toValues = .ok row) : (Access.create m row).attempt t =
      if (t.keys.lookup (keyText row field)).isSome then
        .error (.duplicatePrimaryKey m.typeName (keyText row field))
      else .ok (r, t.withRow (keyText row field) row) := by
  simp only [attempt, hread, ok_bind, hrow, hkey, Table.insert]
  by_cases htaken : (t.keys.lookup (keyText row field)).isSome = true
  · simp only [if_pos htaken]
    rfl
  · simp only [if_neg htaken]
    rfl

variable {v : Json} {change : Record → Record} {n : Nat} {written : Values}

theorem attempt_modify_missing (h : t.under? v.compact = none) :
    (Access.modify m (.primaryKey v) change).attempt t = .error (.objectNotFound m.typeName) := by
  have hlocate : t.locate (.primaryKey v) = t.keys.lookup v.compact := rfl
  simp only [attempt, Table.find, hlocate]
  cases hlookup : t.keys.lookup v.compact with
  | none => rfl
  | some n =>
    have hrow : t.row? n = none := by
      simpa [Table.under?, hlookup] using h
    simp only [ok_bind, Table.read, hrow]
    rfl

theorem attempt_modify_unreadable (h : t.under? v.compact = some (n, row)) {e : StoreError}
    (hread : m.fromValues row = .error e) :
    (Access.modify m (.primaryKey v) change).attempt t = .error e := by
  obtain ⟨hlookup, hrow⟩ := Table.under_eq_some.mp h
  have hlocate : t.locate (.primaryKey v) = some n := hlookup
  simp only [attempt, Table.find, hlocate, ok_bind, Table.read, hrow, hread]
  rfl

/-- A row that is found and read is replaced, unless its key would be spelled otherwise. -/
theorem attempt_modify (hkey : m.primaryKey? = some field)
    (h : t.under? v.compact = some (n, row)) (hread : m.fromValues row = .ok r)
    (hwritten : (change r).toValues = .ok written) :
    (Access.modify m (.primaryKey v) change).attempt t =
      if keyText row field = keyText written field then
        .ok (change r, { t with rows := Table.replaceRow n written t.rows })
      else .error (.primaryKeyChanged m.typeName (keyText row field) (keyText written field)) := by
  obtain ⟨hlookup, hrow⟩ := Table.under_eq_some.mp h
  have hlocate : t.locate (.primaryKey v) = some n := hlookup
  simp only [attempt, Table.find, hlocate, ok_bind, Table.read, hrow, hread, hwritten, hkey,
    Table.replace]
  by_cases hsame : keyText row field = keyText written field
  · simp only [if_pos hsame]
    rfl
  · simp only [if_neg hsame]
    rfl

end Access

namespace Feed

variable {s : Store} {u : User} {p : Post} {signedInAt : UInt64} {t : Table}

theorem attempt_posting (p : Post) (t : Table) :
    (posting p).attempt t = if (t.keys.lookup (Json.quote p.id.stored)).isSome then
        .error (.duplicatePrimaryKey "Post" (Json.quote p.id.stored))
      else .ok (⟨p.toFields, []⟩, t.withRow (Json.quote p.id.stored) p.row) :=
  Access.attempt_create rfl p.fromValues_row p.toValues_eq

/-- A row that can be read is that of a user. -/
theorem exists_user_of_read {row : Values} {r : Record} (hproper : row.Proper)
    (hread : Model.user.fromValues row = .ok r) : ∃ author : User, r = ⟨author.toFields, []⟩ := by
  obtain ⟨hadmits, -, htransient⟩ := Model.admits_of_fromValues sound_user hproper hread
  obtain ⟨author, hfields⟩ := exists_user_of_admits hadmits
  refine ⟨author, ?_⟩
  obtain ⟨fields, transient⟩ := r
  cases hfields
  cases htransient
  rfl

theorem toValues_setAll_changes (author u : User) (p : Post) (signedInAt : UInt64) :
    (Record.setAll ⟨author.toFields, []⟩ (changes u p signedInAt)).toValues =
      .ok (author.withPost u p signedInAt).row := by
  rw [setAll_changes, User.toValues_eq]

/-- How the author of a post is written, if it can be. -/
theorem attempt_embedding (u : User) (p : Post) (signedInAt : UInt64)
    (hproper : ∀ row ∈ t.values, row.Proper) :
    (∃ e, (embedding u p signedInAt).attempt t = .error e ∧ Unwritable t u e) ∨
      ∃ n row, ∃ author : User, t.under? (Json.quote u.id.stored) = some (n, row) ∧
        Model.user.fromValues row = .ok ⟨author.toFields, []⟩ ∧
        keyText row "id" = Json.quote author.id.stored ∧
        (embedding u p signedInAt).attempt t = .ok (⟨(author.withPost u p signedInAt).toFields, []⟩,
          { t with rows := Table.replaceRow n (author.withPost u p signedInAt).row t.rows }) := by
  cases hunder : t.under? (Json.quote u.id.stored) with
  | none => exact .inl ⟨_, Access.attempt_modify_missing hunder, .missing hunder⟩
  | some found =>
    obtain ⟨n, row⟩ := found
    cases hread : Model.user.fromValues row with
    | error e =>
      exact .inl ⟨e, Access.attempt_modify_unreadable hunder hread, .unreadable hunder hread⟩
    | ok r =>
      have hmem : row ∈ t.values :=
        List.mem_map_of_mem (mem_of_lookup (Table.under_eq_some.mp hunder).2)
      obtain ⟨author, rfl⟩ := exists_user_of_read (hproper row hmem) hread
      have hattempt : (embedding u p signedInAt).attempt t = _ :=
        Access.attempt_modify rfl hunder hread (toValues_setAll_changes author u p signedInAt)
      have hid : keyText (author.withPost u p signedInAt).row "id" = Json.quote author.id.stored :=
        User.keyText_row _
      rw [hid] at hattempt
      by_cases hkey : keyText row "id" = Json.quote author.id.stored
      · refine .inr ⟨n, row, author, rfl, hread, hkey, ?_⟩
        rw [← setAll_changes]
        exact hattempt.trans (if_pos hkey)
      · exact .inl ⟨_, hattempt.trans (if_neg hkey), .respelled hunder hread hkey⟩

/-- Publishing does one of three things. -/
theorem published (hproper : ∀ row ∈ (s.tables.table "User").values, row.Proper) (u : User)
    (id : ObjectId) (postedAt signedInAt : UInt64) (content : String) :
    Published s u ⟨id, u.userId, content, postedAt⟩ signedInAt
      (publish s u id postedAt signedInAt content) := by
  have hwrote := wrote s u id postedAt signedInAt content
  generalize publish s u id postedAt signedInAt content = result at hwrote ⊢
  generalize (⟨id, u.userId, content, postedAt⟩ : Post) = p at hwrote ⊢
  have hposting := attempt_posting p (s.tables.table "Post")
  have hembeds := attempt_embedding u p signedInAt hproper
  cases hwrote with
  | nothing hpost =>
    rw [hpost] at hposting
    split at hposting
    · next htaken =>
      cases hposting
      exact .taken htaken
    · cases hposting
  | @post r t e s' hpost hauthor htables =>
    rw [hpost] at hposting
    split at hposting
    · cases hposting
    · next hfresh =>
      cases hposting
      obtain ⟨e', he', hunwritable⟩ | ⟨_, _, _, _, _, _, hok⟩ := hembeds
      · obtain rfl := Except.error.inj (hauthor.symm.trans he')
        refine .orphaned (Option.not_isSome_iff_eq_none.mp hfresh) hunwritable ?_ fun name hne => ?_
        · rw [htables, Function.update_self]
        · rw [htables, Function.update_of_ne hne]
      · exact nomatch hauthor.symm.trans hok
  | @both r r' t t' s₁ s' hpost hauthor hposted htables =>
    rw [hpost] at hposting
    split at hposting
    · cases hposting
    · next hfresh =>
      cases hposting
      have hne : "Post" ≠ "User" := by decide
      obtain ⟨_, herror, -⟩ | ⟨n, row, author, hunder, hread, hkey, hok⟩ := hembeds
      · exact nomatch hauthor.symm.trans herror
      · obtain ⟨rfl, rfl⟩ := Prod.mk.inj (Except.ok.inj (hauthor.symm.trans hok))
        rw [adopt_withPost]
        refine .embedded (Option.not_isSome_iff_eq_none.mp hfresh) hunder hread hkey ?_ ?_
          fun name huser hpost => ?_
        · rw [htables, Function.update_of_ne hne, hposted, Function.update_self]
        · rw [htables, Function.update_self]
        · rw [htables, Function.update_of_ne huser, hposted, Function.update_of_ne hpost]

end Feed

end RecordStore
