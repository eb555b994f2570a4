import RecordStore.Proofs.Feed.Publishing

/-!
Whose posts a user has. A post that is published through a user value is stored for good, but its
author is given the posts of that value and it: where the value is older than the author, posts are
lost to the author. They are all kept just as long as every value has the posts of its author when
something is published through it.
-/
namespace RecordStore.Feed

/-- An action with the identifier and the times that are given to it. -/
structure Move where
  id : ObjectId
  now : UInt64
  later : UInt64
  action : Action
  deriving Repr

def Action.isDeletion : Action → Bool
  | .deleteUser _ => true
  | _ => false

/-- A post, the user value it was published through, and the store as it was before. -/
structure Publication where
  before : Store
  value : User
  post : Post

def Publication.IsCurrent (p : Publication) : Prop :=
  ∃ us ∈ (users p.before).toOption,
    ∀ author ∈ us, author.id = p.value.id → author.posts = p.value.posts

instance : DecidablePred Publication.IsCurrent := fun p =>
  inferInstanceAs (Decidable (∃ us ∈ (users p.before).toOption,
    ∀ author ∈ us, author.id = p.value.id → author.posts = p.value.posts))

def publishedBy (author : ObjectId) (pubs : List Publication) : List Post :=
  (pubs.filter (·.value.id = author)).map (·.post)

/-- Whether every stored user has just the posts published through its values, all of them
stored. -/
def HasAll (s : Store) (pubs : List Publication) : Prop :=
  ∃ us ∈ (users s).toOption, ∃ ps ∈ (posts s).toOption,
    ∀ u ∈ us, u.posts = publishedBy u.id pubs ∧ ∀ p ∈ u.posts, p ∈ ps

instance (s : Store) (pubs : List Publication) : Decidable (HasAll s pubs) :=
  inferInstanceAs (Decidable (∃ us ∈ (users s).toOption, ∃ ps ∈ (posts s).toOption,
    ∀ u ∈ us, u.posts = publishedBy u.id pubs ∧ ∀ p ∈ u.posts, p ∈ ps))

namespace State

def act (f : State) (m : Move) : State :=
  match f.step m.id m.now m.later m.action with
  | (.users us, f) => { f with values := f.values ++ us }
  | (_, f) => f

def publication? (f : State) (m : Move) : Option Publication :=
  match m.action, (f.step m.id m.now m.later m.action).1 with
  | .publish place _, .published post _ => f.values[place]?.map (⟨f.store, ·, post⟩)
  | _, _ => none

/-- The state after some actions. -/
def after (f : State) (moves : List Move) : State := moves.foldl act f

/-- The publications among some actions, in order. -/
def publications (f : State) : List Move → List Publication
  | [] => []
  | m :: rest => (f.publication? m).toList ++ (f.act m).publications rest

end State

variable {s : Store} {lists : Lists} {us us' : List User} {ps : List Post} {f f' : State}
  {m : Move} {pubs : List Publication} {author : ObjectId}

/-- Signing up writes nothing, or a user after the others. -/
theorem Holds.signUp_cases (h : Holds s lists us ps) (id : ObjectId) (now : UInt64)
    (userId userName : String) {u : User} (hu : ⟨id, userId, userName, now, now, []⟩ = u)
    {motive : Except StoreError User × Store → Prop}
    (taken : ∀ e, motive (.error e, s))
    (stored : ∀ s', u.id ∉ us.map User.id →
      Holds s' (Function.update lists "User" ((us ++ [u]).map User.row)) (us ++ [u]) ps →
      motive (.ok u, s')) :
    motive (signUp s id now userId userName) := by
  have hsignUp : signUp = signUp := rfl
  conv_rhs at hsignUp => delta signUp
  rw [hsignUp]
  beta_reduce
  subst hu
  extract_lets u
  have ht : (s.tables.table "User").Holds Model.user.primaryKey? (us.map User.row) :=
    h.users ▸ h.store.tables Model.user isOwn_user
  obtain ⟨htaken, hfresh⟩ :=
    attempt_create_eq rfl User.keyText_row User.fromValues_row User.toValues_eq ht u
  have hwrite : s.transact (create Model.user u.toFields) =
      s.transact (Access.create Model.user u.row).perform :=
    transact_lift s u.toValues_eq (Transact.create Model.user)
  rw [hwrite]
  by_cases hid : u.id ∈ us.map User.id
  · rw [Store.transact_of_error (htaken hid)]
    exact taken _
  · obtain ⟨t, hcreated, hholds⟩ := hfresh hid
    obtain ⟨s', hs', htables⟩ := Store.transact_of_ok hcreated
    have hadopt : u.adopt ⟨u.toFields, []⟩ = u := by
      rw [User.adopt, User.ofFields_toFields, Option.getD_some]
    simp only [hs', hadopt]
    exact stored s' hid (h.withUsers htables hholds)

theorem publishedBy_append (pubs more : List Publication) :
    publishedBy author (pubs ++ more) = publishedBy author pubs ++ publishedBy author more := by
  rw [publishedBy, List.filter_append, List.map_append]
  rfl

theorem publishedBy_single (p : Publication) :
    publishedBy author [p] = if p.value.id = author then [p.post] else [] := by
  by_cases h : p.value.id = author <;> simp [publishedBy, h]

/-- Users who have published nothing. -/
theorem publishedBy_eq_nil (h : ∀ p ∈ pubs, p.value.id ≠ author) :
    publishedBy author pubs = [] := by
  have hnone : pubs.filter (·.value.id = author) = [] :=
    List.filter_eq_nil_iff.mpr fun p hp hid => h p hp (of_decide_eq_true hid)
  rw [publishedBy, hnone]
  rfl

/-- What holds of a feed from which nobody was deleted, after given publications: their posts are
stored, and no user and no value has others than its own, or has its own in another order. -/
structure Tracks (f : State) (pubs : List Publication) (us : List User) : Prop where
  holds : ∃ lists, Holds f.store lists us (pubs.map Publication.post)
  authors : ∀ p ∈ pubs, p.value.id ∈ us.map User.id
  posts : ∀ u ∈ us ++ f.values,
    u.id ∈ us.map User.id ∧ u.posts.Sublist (publishedBy u.id pubs)

/-- What one action does to the stored users. -/
inductive Acted (f : State) (us : List User) : Option Publication → List User → Prop
  | kept : Acted f us none us
  | joined (u : User) (hfresh : u.id ∉ us.map User.id) (hposts : u.posts = []) :
    Acted f us none (us ++ [u])
  | published {before after : List User} {author value : User} (post : Post) (signedInAt : UInt64)
      (hus : us = before ++ author :: after) (hauthor : author.id = value.id) :
    Acted f us (some ⟨f.store, value, post⟩)
      (before ++ author.withPost value post signedInAt :: after)

/-- Nothing is stored anew where only values are copied or listed. -/
theorem Tracks.of_values (h : Tracks f pubs us) (hstore : f'.store = f.store)
    (hvalues : ∀ v ∈ f'.values, v ∈ us ++ f.values) : Tracks f' pubs us := by
  refine ⟨hstore ▸ h.holds, h.authors, fun u hu => h.posts u ?_⟩
  rcases List.mem_append.mp hu with hu | hu
  · exact List.mem_append_left _ hu
  · exact hvalues u hu

/-- The post is the last one published by its author. -/
theorem Tracks.withPost (h : Tracks f pubs us) {before after : List User} {author u : User}
    (hu : u.id ∈ us.map User.id ∧ u.posts.Sublist (publishedBy u.id pubs))
    (hus : us = before ++ author :: after) (hauthor : author.id = u.id) {p : Post}
    {signedInAt : UInt64} {place : Nat}
    (hholds : Holds s lists (before ++ author.withPost u p signedInAt :: after)
      (pubs.map Publication.post ++ [p])) :
    Tracks ⟨s, f.values.set place (author.withPost u p signedInAt)⟩ (pubs ++ [⟨f.store, u, p⟩])
      (before ++ author.withPost u p signedInAt :: after) := by
  have hids : (before ++ author.withPost u p signedInAt :: after).map User.id = us.map User.id := by
    rw [hus, List.map_append, List.map_append]
    rfl
  refine ⟨⟨lists, ?_⟩, fun q hq => ?_, fun v hv => ?_⟩
  · rw [List.map_append]
    exact hholds
  · rw [hids]
    rcases List.mem_append.mp hq with hq | hq
    · exact h.authors q hq
    · obtain rfl := List.mem_singleton.mp hq
      exact hu.1
  · rw [hids, publishedBy_append, publishedBy_single]
    have hcases : v ∈ us ++ f.values ∨ v = author.withPost u p signedInAt := by
      rcases List.mem_append.mp hv with hv | hv
      · rw [hus]
        simp only [List.mem_append, List.mem_cons] at hv ⊢
        tauto
      · rcases List.mem_or_eq_of_mem_set hv with hv | hv
        · exact .inl (List.mem_append_right _ hv)
        · exact .inr hv
    rcases hcases with hv | rfl
    · obtain ⟨hid, hposts⟩ := h.posts v hv
      exact ⟨hid, hposts.trans (List.sublist_append_left ..)⟩
    · have hid : (author.withPost u p signedInAt).id = u.id := hauthor
      rw [hid, if_pos rfl]
      exact ⟨hu.1, hu.2.append (List.Sublist.refl [p])⟩

/-- Signing up keeps track, with one user more at most. -/
theorem Tracks.signUp (h : Tracks f pubs us) {userId userName : String}
    (hm : m.action = .signUp userId userName) :
    ∃ us', Tracks (f.act m) (pubs ++ (f.publication? m).toList) us' ∧
      Acted f us (f.publication? m) us' := by
  obtain ⟨lists, hholds⟩ := h.holds
  have hcases {motive} :=
    hholds.signUp_cases m.id m.now userId userName rfl (motive := motive)
  unfold State.act State.publication? State.step
  rw [hm]
  obtain ⟨up, hup⟩ : ∃ up, Feed.signUp = up := ⟨_, rfl⟩
  rw [hup] at hcases ⊢
  dsimp only
  generalize up f.store m.id m.now userId userName = result at hcases ⊢
  apply hcases
  case taken =>
    intro e
    refine ⟨us, ?_, .kept⟩
    rw [Option.toList_none, List.append_nil]
    exact h.of_values rfl fun v hv => List.mem_append_right _ hv
  case stored =>
    intro s' hfresh hholds'
    refine ⟨_, ?_, .joined _ hfresh rfl⟩
    rw [Option.toList_none, List.append_nil]
    refine ⟨⟨_, hholds'⟩, fun p hp => ?_, fun v hv => ?_⟩
    · rw [List.map_append]
      exact List.mem_append_left _ (h.authors p hp)
    · have hnew : v ∈ us ++ f.values ∨ v = ⟨m.id, userId, userName, m.now, m.now, []⟩ := by
        simp only [List.mem_append, List.mem_singleton] at hv ⊢
        tauto
      rcases hnew with hv | rfl
      · obtain ⟨hid, hposts⟩ := h.posts v hv
        exact ⟨by rw [List.map_append]; exact List.mem_append_left _ hid, hposts⟩
      · exact ⟨by simp, List.nil_sublist _⟩

/-- Publishing keeps track, with the post as the last one where it succeeds. -/
theorem Tracks.publish (h : Tracks f pubs us) {place : Nat} {content : String}
    (hm : m.action = .publish place content) :
    ∃ us', Tracks (f.act m) (pubs ++ (f.publication? m).toList) us' ∧
      Acted f us (f.publication? m) us' := by
  obtain ⟨lists, hholds⟩ := h.holds
  have hcases (u : User) {motive} :=
    hholds.publish_cases u m.id m.now m.later content rfl (motive := motive)
  unfold State.act State.publication? State.step
  rw [hm]
  obtain ⟨write, hwrite⟩ : ∃ write, Feed.publish = write := ⟨_, rfl⟩
  rw [hwrite] at hcases ⊢
  dsimp only
  cases hvalue : f.values[place]? with
  | none => exact ⟨us, by simpa using h, .kept⟩
  | some u =>
    have hu := h.posts u (List.mem_append_right _ (List.mem_of_getElem? hvalue))
    have hcases {motive} := hcases u (motive := motive)
    dsimp only
    generalize write f.store u m.id m.now m.later content = result at hcases ⊢
    apply hcases
    case taken =>
      intro htaken
      refine ⟨us, ?_, .kept⟩
      rw [Option.toList_none, List.append_nil]
      refine h.of_values rfl fun v hv => List.mem_append_right _ ?_
      rcases List.mem_or_eq_of_mem_set hv with hv | rfl
      · exact hv
      · exact List.mem_of_getElem? hvalue
    case orphaned => exact fun s' _ hmissing => absurd hu.1 hmissing
    case embedded =>
      intro s' before author after _ hus hauthor hholds'
      simp only [hvalue, Option.map_some, Option.toList_some]
      refine ⟨_, ?_, .published _ m.later hus hauthor⟩
      exact h.withPost hu hus hauthor hholds'

/-- Listing keeps track, with the listed users as further values. -/
theorem Tracks.list (h : Tracks f pubs us) (hm : m.action = .users) :
    ∃ us', Tracks (f.act m) (pubs ++ (f.publication? m).toList) us' ∧
      Acted f us (f.publication? m) us' := by
  obtain ⟨lists, hholds⟩ := h.holds
  have husers := hholds.users_eq
  unfold State.act State.publication? State.step
  rw [hm]
  obtain ⟨read, hread⟩ : ∃ read, Feed.users = read := ⟨_, rfl⟩
  rw [hread] at husers ⊢
  dsimp only
  rw [husers]
  refine ⟨us, ?_, .kept⟩
  rw [Option.toList_none, List.append_nil]
  refine h.of_values rfl fun v hv => ?_
  rw [List.mem_append] at hv ⊢
  exact hv.symm

/-- Whatever is done that deletes nobody. -/
theorem Tracks.act (h : Tracks f pubs us) (hkeep : m.action.isDeletion = false) :
    ∃ us', Tracks (f.act m) (pubs ++ (f.publication? m).toList) us' ∧
      Acted f us (f.publication? m) us' := by
  cases hm : m.action with
  | signUp userId userName => exact h.signUp hm
  | publish place content => exact h.publish hm
  | deleteUser place => simp [hm, Action.isDeletion] at hkeep
  | users => exact h.list hm
  | copyUser place =>
    unfold State.act State.publication? State.step
    rw [hm]
    refine ⟨us, ?_, .kept⟩
    rw [Option.toList_none, List.append_nil]
    dsimp only
    cases hvalue : f.values[place]? with
    | none => exact h
    | some u =>
      refine h.of_values rfl fun v hv => List.mem_append_right _ ?_
      rcases List.mem_append.mp hv with hv | hv
      · exact hv
      · obtain rfl := List.mem_singleton.mp hv
        exact List.mem_of_getElem? hvalue
  | posts =>
    obtain ⟨lists, hholds⟩ := h.holds
    have hposts := hholds.posts_eq
    unfold State.act State.publication? State.step
    rw [hm]
    obtain ⟨read, hread⟩ : ∃ read, Feed.posts = read := ⟨_, rfl⟩
    rw [hread] at hposts ⊢
    dsimp only
    rw [hposts]
    exact ⟨us, by simpa using h, .kept⟩

theorem tracks_initial : Tracks {} [] [] := by
  refine ⟨⟨fun _ => [], Store.holds_empty IsOwn "default", rfl, rfl⟩, ?_, ?_⟩
  · exact fun p hp => absurd hp List.not_mem_nil
  · exact fun u hu => absurd hu List.not_mem_nil

theorem Tracks.after (h : Tracks f pubs us) {moves : List Move}
    (hkeep : ∀ m ∈ moves, m.action.isDeletion = false) :
    ∃ us', Tracks (f.after moves) (pubs ++ f.publications moves) us' := by
  induction moves generalizing f pubs us with
  | nil =>
    rw [State.publications, List.append_nil]
    exact ⟨us, h⟩
  | cons m rest ih =>
    obtain ⟨hm, hrest⟩ := List.forall_mem_cons.mp hkeep
    obtain ⟨us', h', -⟩ := h.act hm
    rw [State.publications, ← List.append_assoc]
    exact ih h' hrest

/-- A value can be published through: its author is stored, if perhaps with other posts. -/
theorem Tracks.publish_ok (h : Tracks f pubs us) {u : User} (hu : u ∈ f.values) {id : ObjectId}
    (hid : id ∉ pubs.map (·.post.id)) (postedAt signedInAt : UInt64) (content : String) :
    (Feed.publish f.store u id postedAt signedInAt content).1 =
      .ok ⟨id, u.userId, content, postedAt⟩ := by
  obtain ⟨lists, hholds⟩ := h.holds
  have hauthor := (h.posts u (List.mem_append_right _ hu)).1
  have hids : (pubs.map Publication.post).map Post.id = pubs.map (·.post.id) := List.map_map
  refine hholds.publish_cases u id postedAt signedInAt content rfl ?taken ?orphaned ?embedded
  case taken => exact fun htaken => absurd (hids ▸ htaken) hid
  case orphaned => exact fun s' _ hmissing => absurd hauthor hmissing
  case embedded => exact fun s' before author after _ _ _ _ => rfl

theorem Tracks.users_toOption (h : Tracks f pubs us) : (users f.store).toOption = some us := by
  obtain ⟨lists, hholds⟩ := h.holds
  rw [hholds.users_eq]
  rfl

theorem Tracks.posts_toOption (h : Tracks f pubs us) :
    (Feed.posts f.store).toOption = some (pubs.map Publication.post) := by
  obtain ⟨lists, hholds⟩ := h.holds
  rw [hholds.posts_eq]
  rfl

theorem publishedBy_subset (pubs : List Publication) :
    publishedBy author pubs ⊆ pubs.map Publication.post :=
  List.map_subset _ (List.filter_subset_self pubs)

theorem Tracks.hasAll_iff (h : Tracks f pubs us) :
    HasAll f.store pubs ↔ ∀ u ∈ us, u.posts = publishedBy u.id pubs := by
  simp only [HasAll, h.users_toOption, h.posts_toOption, Option.mem_some_iff, exists_eq_left']
  refine forall₂_congr fun u hu => and_iff_left_of_imp fun hall => ?_
  rw [hall]
  exact publishedBy_subset pubs

theorem Tracks.isCurrent_iff (h : Tracks f pubs us) (value : User) (post : Post) :
    Publication.IsCurrent ⟨f.store, value, post⟩ ↔
      ∀ author ∈ us, author.id = value.id → author.posts = value.posts := by
  simp only [Publication.IsCurrent, h.users_toOption, Option.mem_some_iff, exists_eq_left']

/-- Where all users have their posts, they still have them after one more action just where what it
publishes goes through a value that is current. -/
theorem Tracks.complete_iff (h : Tracks f pubs us)
    (hall : ∀ u ∈ us, u.posts = publishedBy u.id pubs) {p? : Option Publication}
    (hacted : Acted f us p? us') :
    (∀ u ∈ us', u.posts = publishedBy u.id (pubs ++ p?.toList)) ↔ ∀ p ∈ p?, p.IsCurrent := by
  cases hacted with
  | kept => simpa using hall
  | joined u hfresh hposts =>
    simp only [Option.toList_none, List.append_nil, Option.not_mem_none, false_imp_iff,
      implies_true, iff_true]
    intro v hv
    rcases List.mem_append.mp hv with hv | hv
    · exact hall v hv
    · obtain rfl := List.mem_singleton.mp hv
      rw [hposts, publishedBy_eq_nil]
      exact fun p hp hid => hfresh (hid ▸ h.authors p hp)
  | @published before after author value post signedInAt hus hauthor =>
    have hstored : author ∈ us := by simp [hus]
    simp only [Option.toList_some, Option.mem_some_iff, forall_eq', h.isCurrent_iff,
      publishedBy_append, publishedBy_single]
    constructor
    · intro hall' a ha hid
      have hlast := hall' (author.withPost value post signedInAt) (by simp)
      have hself : (author.withPost value post signedInAt).id = value.id := hauthor
      rw [hself, if_pos rfl] at hlast
      rw [hall a ha, hid]
      exact (List.append_cancel_right hlast).symm
    · intro hcurrent v hv
      have hnodup : (us.map User.id).Nodup := by
        obtain ⟨lists, hholds⟩ := h.holds
        exact hholds.ids_nodup.1
      rw [hus, List.map_append, List.map_cons, List.nodup_middle, List.nodup_cons,
        ← List.map_append, hauthor] at hnodup
      have hcases : v = author.withPost value post signedInAt ∨ v ∈ before ++ after := by
        simp only [List.mem_append, List.mem_cons] at hv ⊢
        tauto
      rcases hcases with rfl | hother
      · have hself : (author.withPost value post signedInAt).id = value.id := hauthor
        rw [hself, if_pos rfl, ← hauthor, ← hall author hstored, hcurrent author hstored hauthor]
        rfl
      · have hid : value.id ≠ v.id := fun hid => hnodup.1 (hid ▸ List.mem_map_of_mem hother)
        rw [if_neg hid, List.append_nil]
        refine hall v ?_
        rw [hus]
        simp only [List.mem_append, List.mem_cons] at hother ⊢
        tauto

/-- After every action all users have their posts just where nothing is published through a value
that is not current. -/
theorem Tracks.hasAll_iff_isCurrent (h : Tracks f pubs us)
    (hall : ∀ u ∈ us, u.posts = publishedBy u.id pubs) {moves : List Move}
    (hkeep : ∀ m ∈ moves, m.action.isDeletion = false) :
    (∀ done, done <+: moves → HasAll (f.after done).store (pubs ++ f.publications done)) ↔
      ∀ p ∈ f.publications moves, p.IsCurrent := by
  induction moves generalizing f pubs us with
  | nil =>
    simp only [List.prefix_nil, forall_eq, State.publications, List.append_nil]
    exact iff_of_true (h.hasAll_iff.mpr hall) fun p hp => absurd hp List.not_mem_nil
  | cons m rest ih =>
    obtain ⟨hm, hrest⟩ := List.forall_mem_cons.mp hkeep
    obtain ⟨us', h', hacted⟩ := h.act hm
    have hcomplete := h.complete_iff hall hacted
    have hdone (done : List Move) : HasAll (f.after (m :: done)).store
        (pubs ++ f.publications (m :: done)) ↔ HasAll ((f.act m).after done).store
          (pubs ++ (f.publication? m).toList ++ (f.act m).publications done) := by
      rw [State.publications, List.append_assoc]
      rfl
    constructor
    · intro hthroughout
      have hnext (done : List Move) (hbegins : done <+: rest) :=
        (hdone done).mp (hthroughout (m :: done) (List.cons_prefix_cons.mpr ⟨rfl, hbegins⟩))
      have hall' := hnext [] List.nil_prefix
      rw [State.publications, List.append_nil] at hall'
      have hall' := h'.hasAll_iff.mp hall'
      intro p hp
      rcases List.mem_append.mp hp with hp | hp
      · exact hcomplete.mp hall' p (Option.mem_toList.mp hp)
      · exact (ih h' hall' hrest).mp hnext p hp
    · intro hcurrent done hbegins
      have hall' := hcomplete.mpr fun p hp =>
        hcurrent p (List.mem_append_left _ (Option.mem_toList.mpr hp))
      rcases List.prefix_cons_iff.mp hbegins with rfl | ⟨done, rfl, hstart⟩
      · rw [State.publications, List.append_nil]
        exact h.hasAll_iff.mpr hall
      · have hlater := (ih h' hall' hrest).mpr fun p hp =>
          hcurrent p (List.mem_append_right _ hp)
        exact (hdone done).mpr (hlater done hstart)

/-- Nothing that was published is lost to the store, and no user has what is not its own or has it
out of order; and all users have all that is theirs, throughout, just where nothing is published
through a value that lacks posts of its author. -/
theorem hasAll_throughout_iff {moves : List Move}
    (hkeep : ∀ m ∈ moves, m.action.isDeletion = false) :
    (∀ done, done <+: moves →
      let f := State.after {} done
      let pubs := State.publications {} done
      ∃ us, users f.store = .ok us ∧ posts f.store = .ok (pubs.map (·.post)) ∧
        (us.map User.id).Nodup ∧ (pubs.map (·.post.id)).Nodup ∧
        (∀ u ∈ us ++ f.values, u.id ∈ us.map User.id ∧
          u.posts.Sublist (publishedBy u.id pubs)) ∧
        ∀ u ∈ f.values, ∀ id postedAt signedInAt content, id ∉ pubs.map (·.post.id) →
          (publish f.store u id postedAt signedInAt content).1 =
            .ok ⟨id, u.userId, content, postedAt⟩) ∧
    ((∀ done, done <+: moves → HasAll (State.after {} done).store (State.publications {} done)) ↔
      ∀ p ∈ State.publications {} moves, p.IsCurrent) := by
  constructor
  · intro done hbegins
    obtain ⟨us, h⟩ := tracks_initial.after fun m hm => hkeep m (hbegins.subset hm)
    rw [List.nil_append] at h
    obtain ⟨lists, hholds⟩ := h.holds
    obtain ⟨husers, hposts⟩ := hholds.ids_nodup
    rw [List.map_map] at hposts
    exact ⟨us, hholds.users_eq, hholds.posts_eq, husers, hposts, h.posts,
      fun u hu id postedAt signedInAt content hid =>
        h.publish_ok hu hid postedAt signedInAt content⟩
  · exact tracks_initial.hasAll_iff_isCurrent (fun u hu => absurd hu List.not_mem_nil) hkeep

def listedValue : List Move := [
  ⟨.ofNat 1, 5, 5, .signUp "ada" "Ada"⟩, ⟨.ofNat 2, 6, 6, .users⟩,
  ⟨.ofNat 3, 7, 8, .publish 1 "hello"⟩]

def staleCopy : List Move := [
  ⟨.ofNat 1, 5, 5, .signUp "ada" "Ada"⟩, ⟨.ofNat 2, 6, 6, .copyUser 0⟩,
  ⟨.ofNat 3, 7, 8, .publish 0 "hello"⟩, ⟨.ofNat 4, 9, 9, .publish 1 "again"⟩]

/-- Who publishes through current values has all posts. -/
theorem hasAll_throughout_iff_listedValue :
    (∀ m ∈ listedValue, m.action.isDeletion = false) ∧
    (State.publications {} listedValue).length = 1 ∧
    ∀ done, done <+: listedValue →
      HasAll (State.after {} done).store (State.publications {} done) := by
  have hkeep : ∀ m ∈ listedValue, m.action.isDeletion = false := by decide
  obtain ⟨hlength, hcurrent⟩ : (State.publications {} listedValue).length = 1 ∧
      ∀ p ∈ State.publications {} listedValue, p.IsCurrent := by decide +kernel
  exact ⟨hkeep, hlength, (hasAll_throughout_iff hkeep).2.mpr hcurrent⟩

/-- The post that was published first is lost to its author. -/
theorem not_hasAll_staleCopy :
    ¬ ∀ moves : List Move, (∀ m ∈ moves, m.action.isDeletion = false) → (moves.map Move.id).Nodup →
      HasAll (State.after {} moves).store (State.publications {} moves) := by
  intro h
  have hlost : ¬ HasAll (State.after {} staleCopy).store (State.publications {} staleCopy) := by
    decide +kernel
  exact hlost (h staleCopy (by decide) (by decide))

end RecordStore.Feed
