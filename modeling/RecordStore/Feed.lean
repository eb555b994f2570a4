import RecordStore.Model.Catalog
import RecordStore.Store.Basic

/-!
A small feed: users sign up and publish posts. A post is stored on its own and then within its
author, after the author's earlier posts. A user value may be older than what is stored; publishing
through it writes the posts that the value has. Identifiers and times come from the caller. The
clock is read once for a post and once more when its author is written.
-/
namespace RecordStore.Feed

structure Post where
  id : ObjectId
  senderId : String
  content : String
  postedAt : UInt64
  deriving DecidableEq, Repr

structure User where
  id : ObjectId
  userId : String
  userName : String
  signedUpAt : UInt64
  signedInAt : UInt64
  /-- The user's posts, oldest first. -/
  posts : List Post
  deriving DecidableEq, Repr

namespace Post

def toFields (p : Post) : List (String × Data) :=
  [("id", .objectId p.id), ("sender_id", .string p.senderId), ("content", .string p.content),
    ("posted_at", .integer p.postedAt.toNat)]

def ofFields? : List (String × Data) → Option Post
  | [(_, .objectId id), (_, .string senderId), (_, .string content), (_, .integer postedAt)] =>
    some ⟨id, senderId, content, .ofNat postedAt.toNat⟩
  | _ => none

def toData (p : Post) : Data := .struct p.toFields

def ofData? : Data → Option Post
  | .struct fields => ofFields? fields
  | _ => none

end Post

namespace User

def toFields (u : User) : List (String × Data) :=
  [("id", .objectId u.id), ("user_id", .string u.userId), ("user_name", .string u.userName),
    ("signed_up_at", .integer u.signedUpAt.toNat), ("signed_in_at", .integer u.signedInAt.toNat),
    ("posts", .list (u.posts.map Post.toData))]

def ofFields? : List (String × Data) → Option User
  | [(_, .objectId id), (_, .string userId), (_, .string userName), (_, .integer signedUpAt),
      (_, .integer signedInAt), (_, .list posts)] => do
    return ⟨id, userId, userName, .ofNat signedUpAt.toNat, .ofNat signedInAt.toNat,
      ← posts.mapM Post.ofData?⟩
  | _ => none

def identity (u : User) : Except StoreError Identity := Model.user.identity ⟨u.toFields, []⟩

def adopt (u : User) (r : Record) : User := (ofFields? r.fields).getD u

def isSignedIn (u : User) : Bool := u.signedUpAt ≤ u.signedInAt

end User

def create (m : Model) (fields : List (String × Data)) : Transact Record := do
  Transact.create m (← Record.toValues ⟨fields, []⟩)

/-- Writes the posts of a user and the time of the sign-in, and leaves the rest as it is stored. -/
def writePosts (u : User) (posts : List Post) (signedInAt : UInt64) : Transact Record := do
  Transact.modifyRecord Model.user (← u.identity) fun r => r.setAll
    [("signed_in_at", .integer signedInAt.toNat), ("posts", .list (posts.map Post.toData))]

def users (s : Store) : Except StoreError (List User) :=
  (s.objects Model.user).map (·.filterMap fun r => User.ofFields? r.fields)

def posts (s : Store) : Except StoreError (List Post) :=
  (s.objects Model.post).map (·.filterMap fun r => Post.ofFields? r.fields)

def signUp (s : Store) (id : ObjectId) (now : UInt64) (userId userName : String) :
    Except StoreError User × Store :=
  let u : User := ⟨id, userId, userName, now, now, []⟩
  match s.transact (create Model.user u.toFields) with
  | (.error e, s) => (.error e, s)
  | (.ok r, s) => (.ok (u.adopt r), s)

/-- Publishes a post and appends it to the posts of the user value. The two are separate writes:
the post stays stored where the author cannot be written. -/
def publish (s : Store) (u : User) (id : ObjectId) (postedAt signedInAt : UInt64)
    (content : String) : Except StoreError Post × User × Store :=
  let post : Post := ⟨id, u.userId, content, postedAt⟩
  match s.transact (create Model.post post.toFields) with
  | (.error e, s) => (.error e, u, s)
  | (.ok _, s) =>
    match s.transact (writePosts u (u.posts ++ [post]) signedInAt) with
    | (.error e, s) => (.error e, u, s)
    | (.ok r, s) => (.ok post, u.adopt r, s)

def deleteUser (s : Store) (u : User) : Except StoreError Unit × Store :=
  s.transact do Transact.delete Model.user (← u.identity)

/-- What can be done in a feed. Users are meant by the place of their value. -/
inductive Action where
  | signUp (userId userName : String)
  | publish (user : Nat) (content : String)
  | deleteUser (user : Nat)
  | copyUser (user : Nat)
  | users
  | posts
  deriving Repr

inductive Outcome where
  | signedUp (user : User)
  | published (post : Post) (user : User)
  | deleted
  | copied
  | users (users : List User)
  | posts (posts : List Post)
  | failed (error : StoreError)
  | noSuchUser

/-- A store and the user values that were taken from it. -/
structure State where
  store : Store := { identifier := "default" }
  values : List User := []

/-- Does one action. An identifier and two times are given to every action, used or not. -/
def State.step (f : State) (id : ObjectId) (now later : UInt64) : Action → Outcome × State
  | .signUp userId userName =>
    match signUp f.store id now userId userName with
    | (.error e, s) => (.failed e, { f with store := s })
    | (.ok u, s) => (.signedUp u, ⟨s, f.values ++ [u]⟩)
  | .publish place content =>
    match f.values[place]? with
    | none => (.noSuchUser, f)
    | some u =>
      match publish f.store u id now later content with
      | (.error e, u, s) => (.failed e, ⟨s, f.values.set place u⟩)
      | (.ok post, u, s) => (.published post u, ⟨s, f.values.set place u⟩)
  | .deleteUser place =>
    match f.values[place]? with
    | none => (.noSuchUser, f)
    | some u =>
      match deleteUser f.store u with
      | (.error e, s) => (.failed e, { f with store := s })
      | (.ok (), s) => (.deleted, { f with store := s })
  | .copyUser place =>
    match f.values[place]? with
    | none => (.noSuchUser, f)
    | some u => (.copied, { f with values := f.values ++ [u] })
  | .users =>
    match users f.store with
    | .error e => (.failed e, f)
    | .ok us => (.users us, f)
  | .posts =>
    match posts f.store with
    | .error e => (.failed e, f)
    | .ok ps => (.posts ps, f)

/-- Does actions one after the other at one time, each with an identifier of its own. -/
def State.run (f : State) (now : UInt64) : List (ObjectId × Action) → List Outcome
  | [] => []
  | (id, a) :: rest =>
    let (outcome, f) := f.step id now now a
    outcome :: f.run now rest

end RecordStore.Feed
