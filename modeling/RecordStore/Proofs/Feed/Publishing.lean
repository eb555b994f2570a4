import RecordStore.Proofs.Feed.Writes
import RecordStore.Proofs.Store.ListStore
import RecordStore.Proofs.Store.Recognition

/-!
Publishing where users and posts are what is stored. Where no other model has their type names, the
tables are a list of users and a list of posts. Where the identifier of the post is taken nothing is
done; where the author is not stored the post stays stored alone; and otherwise the post is the last
one stored, and the last of its author's.
-/
namespace RecordStore.Feed

open Table (keyText)

def IsBeside (m : Model) : Prop := Model.user.Alongside m ∧ Model.post.Alongside m

def IsOwn (m : Model) : Prop := m = Model.user ∨ m = Model.post

/-- A store whose lists are those of given users and posts. -/
structure Holds (s : Store) (lists : Lists) (us : List User) (ps : List Post) : Prop where
  store : s.Holds IsOwn lists
  users : lists "User" = us.map User.row
  posts : lists "Post" = ps.map Post.row

/-- What comes of publishing a post through a user value, given the users and posts stored. -/
inductive PublishedAmong (s : Store) (us : List User) (ps : List Post) (u : User) (p : Post)
    (signedInAt : UInt64) : Except StoreError Post × User × Store → Prop
  | taken (htaken : p.id ∈ ps.map Post.id) : PublishedAmong s us ps u p signedInAt
      (.error (.duplicatePrimaryKey "Post" (Json.quote p.id.stored)), u, s)
  | orphaned {s' : Store} (hfresh : p.id ∉ ps.map Post.id) (hauthor : u.id ∉ us.map User.id)
      (husers : users s' = .ok us) (hposts : posts s' = .ok (ps ++ [p]))
      (hothers : ∀ typeName, typeName ≠ "Post" →
        (s'.tables.table typeName).values = (s.tables.table typeName).values) :
    PublishedAmong s us ps u p signedInAt (.error (.objectNotFound "User"), u, s')
  | embedded {s' : Store} {before after : List User} {author : User}
      (hfresh : p.id ∉ ps.map Post.id) (hus : us = before ++ author :: after)
      (hauthor : author.id = u.id)
      (husers : users s' = .ok (before ++ author.withPost u p signedInAt :: after))
      (hposts : posts s' = .ok (ps ++ [p]))
      (hothers : ∀ typeName, typeName ≠ "User" → typeName ≠ "Post" →
        (s'.tables.table typeName).values = (s.tables.table typeName).values) :
    PublishedAmong s us ps u p signedInAt (.ok p, author.withPost u p signedInAt, s')

variable {s s' : Store} {lists : Lists} {us us' : List User} {ps ps' : List Post} {u : User}
  {p : Post} {signedInAt : UInt64} {t : Table}

theorem isBeside_of_mem_catalog {e : String × Model} (h : e ∈ Model.catalog) : IsBeside e.2 := by
  have hsound := Model.sound_of_mem_catalog h
  simp only [Model.catalog, List.mem_cons, List.not_mem_nil, or_false] at h
  rcases h with rfl | rfl | rfl | rfl | rfl | rfl | rfl | rfl | rfl | rfl | rfl | rfl | rfl | rfl
  all_goals
    refine ⟨⟨hsound, fun hname => ?_⟩, hsound, fun hname => ?_⟩ <;>
      first
      | rfl
      | exact absurd hname (by decide)

theorem isBeside_user : IsBeside Model.user :=
  isBeside_of_mem_catalog (show ("User", Model.user) ∈ Model.catalog by simp [Model.catalog])

theorem isOwn_user : IsOwn Model.user := .inl rfl

theorem isOwn_post : IsOwn Model.post := .inr rfl

theorem oneKey_isOwn : OneKey IsOwn := by
  rintro m m' (rfl | rfl) (rfl | rfl) hname
  · rfl
  · exact absurd hname (by decide)
  · exact absurd hname (by decide)
  · rfl

/-- Rows that are all read are listed in their order. -/
theorem objects_eq_map {α : Type} {m : Model} {row : α → Values} {record : α → Record}
    (hread : ∀ a, m.fromValues (row a) = .ok (record a)) {as : List α}
    (hvalues : (s.tables.table m.typeName).values = as.map row) :
    s.objects m = .ok (as.map record) := by
  rw [Store.objects, Table.records_eq_ok, hvalues, List.forall₂_map_left_iff,
    List.forall₂_map_right_iff, List.forall₂_same]
  intro a _
  exact hread a

theorem Holds.users_eq (h : Holds s lists us ps) : Feed.users s = .ok us := by
  have hvalues : (s.tables.table Model.user.typeName).values = us.map User.row :=
    (h.store.values "User").trans h.users
  rw [Feed.users, objects_eq_map User.fromValues_row hvalues]
  simp [Except.map, List.filterMap_map, User.ofFields_toFields]

theorem Holds.posts_eq (h : Holds s lists us ps) : Feed.posts s = .ok ps := by
  have hvalues : (s.tables.table Model.post.typeName).values = ps.map Post.row :=
    (h.store.values "Post").trans h.posts
  rw [Feed.posts, objects_eq_map Post.fromValues_row hvalues]
  simp [Except.map, List.filterMap_map, Post.ofFields_toFields]

/-- A row is created where no row has its identifier. -/
theorem create_eq {α : Type} {m : Model} {row : α → Values} {fields : α → List (String × Data)}
    {id : α → ObjectId} (hprimary : m.primaryKey? = some "id")
    (hkey : ∀ a, keyText (row a) "id" = Json.quote (id a).stored)
    (hread : ∀ a, m.fromValues (row a) = .ok ⟨fields a, []⟩)
    (hrow : ∀ a, Record.toValues ⟨fields a, []⟩ = .ok (row a)) (as : List α) (a : α) :
    ListStore.create m (row a) (as.map row) =
      if id a ∈ as.map id then
        .error (.duplicatePrimaryKey m.typeName (Json.quote (id a).stored))
      else .ok (⟨fields a, []⟩, (as ++ [a]).map row) := by
  have htaken : ((as.map row).any fun old => keyText old "id" == keyText (row a) "id") = true ↔
      id a ∈ as.map id := by
    simp only [List.any_map, List.any_eq_true, Function.comp_apply, beq_iff_eq, hkey,
      List.mem_map]
    constructor
    · rintro ⟨b, hb, htext⟩
      exact ⟨b, hb, quote_stored_inj htext⟩
    · rintro ⟨b, hb, hid⟩
      exact ⟨b, hb, by rw [hid]⟩
  rw [ListStore.create, hread, ok_bind, hrow, ok_bind, ListStore.insert, hprimary]
  simp only
  by_cases hid : id a ∈ as.map id
  · rw [if_pos hid, if_pos (htaken.mpr hid), hkey]
    rfl
  · rw [if_neg hid, if_neg (htaken.not.mpr hid), List.map_append]
    rfl

theorem isCounterpart_row (u v : User) :
    Model.user.isCounterpart u.row v.row = (v.id == u.id) := by
  show (keyText v.row "id" == keyText u.row "id") = (v.id == u.id)
  rw [u.keyText_row, v.keyText_row, Bool.eq_iff_iff, beq_iff_eq, beq_iff_eq]
  exact ⟨quote_stored_inj, fun h => by rw [h]⟩

theorem update_missing (u : User) (p : Post) (signedInAt : UInt64) (h : u.id ∉ us.map User.id) :
    ListStore.update Model.user u.row (changes u p signedInAt) (us.map User.row) =
      .error (.objectNotFound "User") := by
  have hnone : (us.map User.row).findIdx? (Model.user.isCounterpart u.row) = none := by
    rw [List.findIdx?_eq_none_iff, List.forall_mem_map]
    intro v hv
    rw [isCounterpart_row]
    exact beq_false_of_ne fun hid => h (hid ▸ List.mem_map_of_mem hv)
  rw [ListStore.update, ListStore.find, hnone]
  rfl

/-- An update of the author writes the posts of the value that publishes and the new one. -/
theorem update_found {before after : List User} (author u : User) (p : Post) (signedInAt : UInt64)
    (hauthor : author.id = u.id) (hbefore : u.id ∉ before.map User.id) :
    ListStore.update Model.user u.row (changes u p signedInAt)
        ((before ++ author :: after).map User.row) =
      .ok (⟨(author.withPost u p signedInAt).toFields, []⟩,
        (before ++ author.withPost u p signedInAt :: after).map User.row) := by
  have hfind : ListStore.find Model.user u.row ((before ++ author :: after).map User.row) =
      .ok (before.length, author.row) := by
    have hlookup : ((before ++ author :: after).map User.row).findIdx?
        (Model.user.isCounterpart u.row) = some before.length := by
      have hnone : before.findIdx? (fun v => v.id == u.id) = none := by
        rw [List.findIdx?_eq_none_iff]
        intro v hv
        exact beq_false_of_ne fun hid => hbefore (hid ▸ List.mem_map_of_mem hv)
      have hcounterpart : Model.user.isCounterpart u.row ∘ User.row = fun v => v.id == u.id :=
        funext fun v => isCounterpart_row u v
      rw [List.findIdx?_map, hcounterpart, List.findIdx?_append, hnone, List.findIdx?_cons,
        beq_iff_eq.mpr hauthor]
      simp
    have hrow : ((before ++ author :: after).map User.row)[before.length]? = some author.row := by
      rw [List.getElem?_map, List.getElem?_append_right (Nat.le_refl _), Nat.sub_self]
      rfl
    rw [ListStore.find, hlookup]
    simp only [hrow, Option.getD_some]
  have hreplace : ListStore.replace Model.user before.length author.row
      (author.withPost u p signedInAt).row ((before ++ author :: after).map User.row) =
        .ok ((before ++ author.withPost u p signedInAt :: after).map User.row) := by
    have hkey : Model.user.primaryKey? = some "id" := rfl
    have hset : ((before ++ author :: after).map User.row).set before.length
        (author.withPost u p signedInAt).row =
          (before ++ author.withPost u p signedInAt :: after).map User.row := by
      rw [← List.map_set, List.set_append_right _ _ (Nat.le_refl _), Nat.sub_self]
      rfl
    rw [ListStore.replace, hkey, hset]
    simp only [User.keyText_row, User.withPost, if_true]
  rw [ListStore.update, hfind, ok_bind]
  show (Model.user.fromValues author.row >>= _) = _
  rw [author.fromValues_row, ok_bind, setAll_changes, User.toValues_eq, ok_bind, hreplace, ok_bind]
  rfl

/-- A record is created where none has its identifier. -/
theorem attempt_create_eq {α : Type} {m : Model} {row : α → Values}
    {fields : α → List (String × Data)} {id : α → ObjectId} (hprimary : m.primaryKey? = some "id")
    (hkey : ∀ a, keyText (row a) "id" = Json.quote (id a).stored)
    (hread : ∀ a, m.fromValues (row a) = .ok ⟨fields a, []⟩)
    (hrow : ∀ a, Record.toValues ⟨fields a, []⟩ = .ok (row a)) {as : List α}
    (ht : t.Holds m.primaryKey? (as.map row)) (a : α) :
    (id a ∈ as.map id → (Access.create m (row a)).attempt t =
      .error (.duplicatePrimaryKey m.typeName (Json.quote (id a).stored))) ∧
    (id a ∉ as.map id → ∃ t', (Access.create m (row a)).attempt t = .ok (⟨fields a, []⟩, t') ∧
      t'.Holds m.primaryKey? ((as ++ [a]).map row)) := by
  have hagrees := Access.create_agrees ht (row a)
  rw [create_eq hprimary hkey hread hrow] at hagrees
  constructor
  · intro htaken
    rw [if_pos htaken] at hagrees
    exact hagrees
  · intro hfresh
    rw [if_neg hfresh] at hagrees
    exact hagrees

/-- A post is stored after all others, if its identifier is new. -/
theorem Holds.posting (h : Holds s lists us ps) (p : Post) :
    (p.id ∈ ps.map Post.id → (posting p).attempt (s.tables.table "Post") =
      .error (.duplicatePrimaryKey "Post" (Json.quote p.id.stored))) ∧
    (p.id ∉ ps.map Post.id → ∃ t, (posting p).attempt (s.tables.table "Post") =
      .ok (⟨p.toFields, []⟩, t) ∧ t.Holds Model.post.primaryKey? ((ps ++ [p]).map Post.row)) := by
  have ht : (s.tables.table "Post").Holds Model.post.primaryKey? (ps.map Post.row) :=
    h.posts ▸ h.store.tables Model.post isOwn_post
  exact attempt_create_eq rfl Post.keyText_row Post.fromValues_row Post.toValues_eq ht p

/-- The author of a post is written in place, if there is one. -/
theorem Holds.embedding (h : Holds s lists us ps) (u : User) (p : Post) (signedInAt : UInt64) :
    (u.id ∉ us.map User.id → (embedding u p signedInAt).attempt (s.tables.table "User") =
      .error (.objectNotFound "User")) ∧
    (u.id ∈ us.map User.id → ∃ before author after t, us = before ++ author :: after ∧
      author.id = u.id ∧ (embedding u p signedInAt).attempt (s.tables.table "User") =
        .ok (⟨(author.withPost u p signedInAt).toFields, []⟩, t) ∧
      t.Holds Model.user.primaryKey?
        ((before ++ author.withPost u p signedInAt :: after).map User.row)) := by
  have ht : (s.tables.table "User").Holds Model.user.primaryKey? (us.map User.row) :=
    h.users ▸ h.store.tables Model.user isOwn_user
  have hagrees := Access.update_agrees ht u.identity_eq u.toValues_eq (changes u p signedInAt)
  constructor
  · intro hauthor
    rw [update_missing u p signedInAt hauthor] at hagrees
    exact hagrees
  · intro hauthor
    obtain ⟨ids, more, hids, hearlier⟩ := List.eq_append_cons_of_mem hauthor
    obtain ⟨before, rest, rfl, rfl, hrest⟩ := List.map_eq_append_iff.mp hids
    obtain ⟨author, after, rfl, hauthor, rfl⟩ := List.map_eq_cons_iff.mp hrest
    rw [update_found author u p signedInAt hauthor hearlier] at hagrees
    obtain ⟨t, hattempt, hholds⟩ := hagrees
    exact ⟨before, author, after, t, rfl, hauthor, hattempt, hholds⟩

theorem Holds.withPosts (h : Holds s lists us ps)
    (htables : s'.tables.table = Function.update s.tables.table "Post" t)
    (ht : t.Holds Model.post.primaryKey? (ps'.map Post.row)) :
    Holds s' (Function.update lists "Post" (ps'.map Post.row)) us ps' := by
  refine ⟨?_, ?_, Function.update_self ..⟩
  · rw [Store.Holds, htables]
    exact Shows.update oneKey_isOwn h.store isOwn_post ht
  · rw [Function.update_of_ne (by decide)]
    exact h.users

theorem Holds.withUsers (h : Holds s lists us ps)
    (htables : s'.tables.table = Function.update s.tables.table "User" t)
    (ht : t.Holds Model.user.primaryKey? (us'.map User.row)) :
    Holds s' (Function.update lists "User" (us'.map User.row)) us' ps := by
  refine ⟨?_, Function.update_self .., ?_⟩
  · rw [Store.Holds, htables]
    exact Shows.update oneKey_isOwn h.store isOwn_user ht
  · rw [Function.update_of_ne (by decide)]
    exact h.posts

/-- Publishing writes nothing, or the post, or the post and its author. -/
@[elab_as_elim]
theorem Holds.publish_cases (h : Holds s lists us ps) (u : User) (id : ObjectId)
    (postedAt signedInAt : UInt64) (content : String) {p : Post}
    (hp : ⟨id, u.userId, content, postedAt⟩ = p)
    {motive : Except StoreError Post × User × Store → Prop}
    (taken : p.id ∈ ps.map Post.id →
      motive (.error (.duplicatePrimaryKey "Post" (Json.quote p.id.stored)), u, s))
    (orphaned : ∀ s', p.id ∉ ps.map Post.id → u.id ∉ us.map User.id →
      Holds s' (Function.update lists "Post" ((ps ++ [p]).map Post.row)) us (ps ++ [p]) →
      motive (.error (.objectNotFound "User"), u, s'))
    (embedded : ∀ s' before author after, p.id ∉ ps.map Post.id → us = before ++ author :: after →
      author.id = u.id →
      Holds s' (Function.update (Function.update lists "Post" ((ps ++ [p]).map Post.row)) "User"
          ((before ++ author.withPost u p signedInAt :: after).map User.row))
        (before ++ author.withPost u p signedInAt :: after) (ps ++ [p]) →
      motive (.ok p, author.withPost u p signedInAt, s')) :
    motive (publish s u id postedAt signedInAt content) := by
  have hwrote := wrote s u id postedAt signedInAt content
  rw [hp] at hwrote
  generalize publish s u id postedAt signedInAt content = result at hwrote ⊢
  obtain ⟨htaken, hposted⟩ := h.posting p
  obtain ⟨hmissing, hfound⟩ := h.embedding u p signedInAt
  by_cases hid : p.id ∈ ps.map Post.id
  · have hfailed := htaken hid
    cases hwrote with
    | nothing hpost =>
      obtain rfl := Except.error.inj (hpost.symm.trans hfailed)
      exact taken hid
    | post hpost => exact nomatch hpost.symm.trans hfailed
    | both hpost => exact nomatch hpost.symm.trans hfailed
  obtain ⟨t, hcreated, ht⟩ := hposted hid
  by_cases hauthor : u.id ∈ us.map User.id
  · obtain ⟨before, author, after, t', hus, hsame, hwritten, ht'⟩ := hfound hauthor
    cases hwrote with
    | nothing hpost => exact nomatch hpost.symm.trans hcreated
    | post _ hfailed => exact nomatch hfailed.symm.trans hwritten
    | both hpost hembedded htables htables' =>
      obtain ⟨-, rfl⟩ := Prod.mk.inj (Except.ok.inj (hpost.symm.trans hcreated))
      obtain ⟨rfl, rfl⟩ := Prod.mk.inj (Except.ok.inj (hembedded.symm.trans hwritten))
      rw [adopt_withPost]
      exact embedded _ before author after hid hus hsame
        ((h.withPosts htables ht).withUsers htables' ht')
  · have hfailed := hmissing hauthor
    cases hwrote with
    | nothing hpost => exact nomatch hpost.symm.trans hcreated
    | post hpost hembedded htables =>
      obtain ⟨-, rfl⟩ := Prod.mk.inj (Except.ok.inj (hpost.symm.trans hcreated))
      obtain rfl := Except.error.inj (hembedded.symm.trans hfailed)
      exact orphaned _ hid hauthor (h.withPosts htables ht)
    | both _ hembedded => exact nomatch hembedded.symm.trans hfailed

theorem values_eq_of_update {s' : Store} {lists' : Lists} {us' : List User} {ps' : List Post}
    (h : Holds s lists us ps) (h' : Holds s' lists' us' ps') {typeName : String}
    (hlists : lists' typeName = lists typeName) :
    (s'.tables.table typeName).values = (s.tables.table typeName).values := by
  rw [h'.store.values, hlists, ← h.store.values]

/-- Publishing does one of three things. -/
theorem Holds.published (h : Holds s lists us ps) (u : User) (id : ObjectId)
    (postedAt signedInAt : UInt64) (content : String) :
    PublishedAmong s us ps u ⟨id, u.userId, content, postedAt⟩ signedInAt
      (publish s u id postedAt signedInAt content) := by
  refine h.publish_cases u id postedAt signedInAt content rfl ?taken ?orphaned ?embedded
  case taken => exact .taken
  case orphaned =>
    intro s' hid hauthor h'
    exact .orphaned hid hauthor h'.users_eq h'.posts_eq fun name hpost =>
      values_eq_of_update h h' (Function.update_of_ne hpost ..)
  case embedded =>
    intro s' before author after hid hus hauthor h'
    refine .embedded hid hus hauthor h'.users_eq h'.posts_eq fun name huser hpost => ?_
    refine values_eq_of_update h h' ?_
    rw [Function.update_of_ne huser, Function.update_of_ne hpost]

theorem exists_eq_map {α β : Type} {f : α → β} {bs : List β} (h : ∀ b ∈ bs, ∃ a, b = f a) :
    ∃ as : List α, bs = as.map f := by
  induction bs with
  | nil => exact ⟨[], rfl⟩
  | cons b bs ih =>
    obtain ⟨⟨a, rfl⟩, hbs⟩ := List.forall_mem_cons.mp h
    obtain ⟨as, rfl⟩ := ih hbs
    exact ⟨a :: as, rfl⟩

/-- Whatever has happened to the store, there are users and posts in it. -/
theorem exists_holds {events : List Store.Event} (hevents : ∀ e ∈ events, e.Typed IsBeside)
    (identifier : String) : ∃ lists us ps,
      Holds (Store.after { identifier := identifier } events) lists us ps := by
  have hsound := Store.after_sound (fun _ hm => hm.1.1) hevents
    (Store.sound_empty IsBeside identifier)
  have hindexed (m : Model) (hm : ∀ m', IsBeside m' → m'.typeName = m.typeName → m' = m) :=
    Store.after_indexed (fun _ h => h.1.1) (fun m' h hname => congrArg _ (hm m' h hname)) hevents
      (Store.sound_empty IsBeside identifier) (Table.indexed_empty : Table.Indexed {} m.primaryKey?)
  generalize Store.after { identifier := identifier } events = s at hsound hindexed
  obtain ⟨us, hus⟩ : ∃ us : List User, (s.tables.table "User").values = us.map User.row := by
    refine exists_eq_map fun row hrow => ?_
    obtain ⟨m, hm, hname, hstores⟩ := (hsound "User").stored row hrow
    exact exists_user_of_stores (hm.1.2 hname ▸ hstores)
  obtain ⟨ps, hps⟩ : ∃ ps : List Post, (s.tables.table "Post").values = ps.map Post.row := by
    refine exists_eq_map fun row hrow => ?_
    obtain ⟨m, hm, hname, hstores⟩ := (hsound "Post").stored row hrow
    exact exists_post_of_stores (hm.2.2 hname ▸ hstores)
  refine ⟨fun name => (s.tables.table name).values, us, ps, ⟨?_, fun _ => rfl⟩, hus, hps⟩
  rintro m (rfl | rfl)
  · exact ⟨(hsound "User").ordered, hindexed Model.user fun _ h => h.1.2, rfl⟩
  · exact ⟨(hsound "Post").ordered, hindexed Model.post fun _ h => h.2.2, rfl⟩

/-- Rows that are found by their identifiers have different ones. -/
theorem ids_nodup_of_indexed {α : Type} {t : Table} (h : t.Indexed (some "id"))
    {row : α → Values} {id : α → ObjectId}
    (hkey : ∀ a, keyText (row a) "id" = Json.quote (id a).stored) {as : List α}
    (hvalues : t.values = as.map row) : (as.map id).Nodup := by
  obtain ⟨hindex, hnodup⟩ := h
  have htexts : t.rows.map (fun r => keyText r.2 "id") =
      (as.map id).map fun i => Json.quote i.stored := by
    calc t.rows.map (fun r => keyText r.2 "id")
      _ = t.values.map (keyText · "id") := by rw [Table.values, List.map_map]; rfl
      _ = as.map (fun a => keyText (row a) "id") := by rw [hvalues, List.map_map]; rfl
      _ = (as.map id).map fun i => Json.quote i.stored := by
        rw [List.map_map]
        exact List.map_congr_left fun a _ => hkey a
  rw [hindex, List.map_map] at hnodup
  exact .of_map _ (htexts ▸ hnodup)

theorem Holds.ids_nodup (h : Holds s lists us ps) :
    (us.map User.id).Nodup ∧ (ps.map Post.id).Nodup := by
  obtain ⟨-, husers, hus⟩ := h.store.tables Model.user isOwn_user
  obtain ⟨-, hposts, hps⟩ := h.store.tables Model.post isOwn_post
  exact ⟨ids_nodup_of_indexed husers User.keyText_row (hus.trans h.users),
    ids_nodup_of_indexed hposts Post.keyText_row (hps.trans h.posts)⟩

/-- What publishing comes to in every state of the default store, and what that is where no other
model has the type names of users and posts. -/
theorem publish_outcome {events : List Store.Event} (hevents : ∀ e ∈ events, e.Typed Model.Sound)
    (u : User) (id : ObjectId) (postedAt signedInAt : UInt64) (content : String) :
    let s := Store.after { identifier := "default" } events
    let p : Post := ⟨id, u.userId, content, postedAt⟩
    Published s u p signedInAt (publish s u id postedAt signedInAt content) ∧
    ((∀ e ∈ events, e.Typed IsBeside) → ∃ us ps, users s = .ok us ∧ posts s = .ok ps ∧
      (us.map User.id).Nodup ∧ (ps.map Post.id).Nodup ∧
      PublishedAmong s us ps u p signedInAt (publish s u id postedAt signedInAt content)) := by
  constructor
  · have hsound := Store.after_sound (fun _ h => h) hevents (Store.sound_empty _ "default")
    exact published (fun row hrow => (hsound "User").proper (fun _ h => h) hrow) ..
  · intro hbeside
    obtain ⟨lists, us, ps, h⟩ := exists_holds hbeside "default"
    obtain ⟨husers, hposts⟩ := h.ids_nodup
    exact ⟨us, ps, h.users_eq, h.posts_eq, husers, hposts, h.published ..⟩

def ada : User := ⟨.ofNat 1, "ada", "Ada", 5, 5, []⟩

def guest : Model where
  typeName := "User"
  fields := [{ name := "id", type := .string, isPrimaryKey := true }]

def guestHistory : List Store.Event := [
  .write {} (.call (.create guest [("id", .string ada.id.stored)]) fun _ => .finish (.ok ()))]

example : (publish (Store.after { identifier := "default" } guestHistory) ada (.ofNat 2) 7 8
    "hello").1 = .error (.missingField "User" "user_id") := by
  decide +kernel

def hello : Post := ⟨.ofNat 2, "ada", "hello", 7⟩

def signedUp : List Store.Event := [
  .write {} (.call (.create Model.user ada.row) fun _ => .finish (.ok ()))]

def signedOff : List Store.Event := signedUp ++ [
  .write {} (.call (.delete Model.user (.primaryKey (.string ada.id.stored)))
    fun _ => .finish (.ok ()))]

theorem typed_signedUp {models : Model → Prop} (huser : models Model.user) :
    ∀ e ∈ signedUp, e.Typed models := by
  intro e he
  obtain rfl := List.mem_singleton.mp he
  have hproper : ada.row.Proper :=
    Model.proper_of_stores sound_user ⟨_, ada.admits, ada.toValues_eq⟩
  exact ⟨⟨huser, hproper⟩, fun _ _ => trivial⟩

theorem typed_signedOff {models : Model → Prop} (huser : models Model.user) :
    ∀ e ∈ signedOff, e.Typed models := by
  intro e he
  rcases List.mem_append.mp he with he | he
  · exact typed_signedUp huser e he
  · obtain rfl := List.mem_singleton.mp he
    exact ⟨huser, fun _ _ => trivial⟩

theorem eq_of_toOption {α : Type} {e : Except StoreError α} {a b : α} (h : e = .ok a)
    (hb : e.toOption = some b) : a = b := by
  rw [h] at hb
  exact Option.some.inj hb

/-- Who has signed up can publish. -/
theorem publish_outcome_signedUp :
    (∀ e ∈ signedUp, e.Typed Model.Sound) ∧ (∀ e ∈ signedUp, e.Typed IsBeside) ∧
    ∃ s', publish (Store.after { identifier := "default" } signedUp) ada (.ofNat 2) 7 8 "hello" =
        (.ok hello, ada.withPost ada hello 8, s') ∧
      users s' = .ok [ada.withPost ada hello 8] ∧ posts s' = .ok [hello] := by
  refine ⟨typed_signedUp sound_user, typed_signedUp isBeside_user, ?_⟩
  obtain ⟨-, hamong⟩ :=
    publish_outcome (typed_signedUp sound_user) ada (.ofNat 2) 7 8 "hello"
  obtain ⟨us, ps, husers, hposts, -, -, h⟩ := hamong (typed_signedUp isBeside_user)
  obtain rfl : us = [ada] := eq_of_toOption husers (by decide +kernel)
  obtain rfl : ps = [] := eq_of_toOption hposts (by decide +kernel)
  generalize publish (Store.after { identifier := "default" } signedUp) ada (.ofNat 2) 7 8
    "hello" = result at h
  cases h with
  | taken htaken => cases htaken
  | orphaned _ hauthor => exact absurd (List.mem_singleton.mpr rfl) hauthor
  | @embedded s' before after author _ heq hauthor hstored hposted _ =>
    obtain ⟨rfl, hlast⟩ | ⟨_, -, hnil⟩ := List.cons_eq_append_iff.mp heq
    · obtain ⟨rfl, rfl⟩ := List.cons.inj hlast
      exact ⟨s', rfl, hstored, hposted⟩
    · simp at hnil

/-- Where the author was deleted, publishing fails and the post stays. -/
theorem not_unchanged_of_signedOff :
    ¬ ∀ (events : List Store.Event) (u : User) (id : ObjectId) (postedAt signedInAt : UInt64)
        (content : String) (us : List User) (ps : List Post) (e : StoreError) (u' : User)
        (s' : Store), (∀ e ∈ events, e.Typed Model.Sound) →
      users (Store.after { identifier := "default" } events) = .ok us →
      posts (Store.after { identifier := "default" } events) = .ok ps → id ∉ ps.map Post.id →
      publish (Store.after { identifier := "default" } events) u id postedAt signedInAt content =
        (.error e, u', s') → users s' = .ok us ∧ posts s' = .ok ps ∧ u' = u := by
  intro h
  obtain ⟨lists, us, ps, hholds⟩ := exists_holds (typed_signedOff isBeside_user) "default"
  obtain rfl : us = [] := eq_of_toOption hholds.users_eq (by decide +kernel)
  obtain rfl : ps = [] := eq_of_toOption hholds.posts_eq (by decide +kernel)
  have hunchanged := h signedOff ada (.ofNat 2) 7 8 "hello" [] []
  have hpublished := hholds.published ada (.ofNat 2) 7 8 "hello"
  generalize publish (Store.after { identifier := "default" } signedOff) ada (.ofNat 2) 7 8
    "hello" = result at hunchanged hpublished
  cases hpublished with
  | taken htaken => cases htaken
  | @orphaned s' _ _ _ hposts _ =>
    obtain ⟨-, hkept, -⟩ := hunchanged _ _ s' (typed_signedOff sound_user) hholds.users_eq
      hholds.posts_eq List.not_mem_nil rfl
    exact nomatch hposts.symm.trans hkept
  | embedded _ hus => simp at hus

end RecordStore.Feed
