import RecordStore.Proofs.Session.Update
import RecordStore.Proofs.Store.ReadBack

/-!
What a create or an update answers and what listing shows afterwards, if it succeeds. A record that
was created is listed at the end as it was answered. One that was updated is listed where it was
before, but an update answers with the record that it changed and does not read it back: a given
value that is lost in its stored form, such as a number that is not finite within an option, is
answered and not listed.
-/
namespace RecordStore.Session

/-- Whatever lists a model in a store next is shown one of some records at a position, unless it
fails. -/
def ListsAt (sess : Session) (store : Nat) (m : Model) (k : Nat) (expected : Record → Prop) :
    Prop :=
  ∀ (nested : Request → Run Answer) (lister : StoreOperation) (as : Option String)
    (rs : List Record) (sess' : Session), lister.model = m → lister.store = store →
    lister.work = .list as →
    outcome (advance nested lister) sess = (.ok (.done (.records rs)), sess') →
    ∃ shown, rs[k]? = some shown ∧ expected shown

variable {nested : Request → Run Answer} {op lister : StoreOperation} {sess sess' : Session}
  {as : Option String} {rs : List Record}

theorem objects_of_answerRecords {result : Except StoreError (List Record)}
    (h : outcome (answerRecords as result) sess = (.ok (.records rs), sess')) :
    result = .ok rs := by
  unfold answerRecords at h
  cases result with
  | error e => cases h
  | ok records =>
    cases as with
    | none =>
      cases h
      rfl
    | some name =>
      simp only [Outcome.bind_eq] at h
      split at h
      · cases h
        rfl
      · cases h

theorem objects_of_listStore {store : Nat} {m : Model}
    (h : outcome (listStore store m as) sess = (.ok (.records rs), sess')) :
    ∃ s, sess.process.store? store = some s ∧ s.objects m = .ok rs := by
  simp only [listStore, Outcome.bind_eq, Outcome.get_eq] at h
  cases hstore : sess.process.store? store with
  | none =>
    rw [hstore] at h
    cases h
  | some s =>
    rw [hstore] at h
    exact ⟨s, rfl, objects_of_answerRecords h⟩

theorem objects_of_enterStore (hwork : lister.work = .list as)
    (h : outcome (enterStore nested lister) sess = (.ok (.done (.records rs)), sess')) :
    ∃ s, sess.process.store? lister.store = some s ∧ s.objects lister.model = .ok rs := by
  unfold enterStore at h
  rw [hwork] at h
  simp only [Outcome.bind_eq, outcome_updateProcess] at h
  split at h
  · next a sess₁ hlist =>
    cases h
    exact objects_of_listStore hlist
  · cases h

theorem objects_of_withActor (hwork : lister.work = .list as) {place : Nat}
    (h : outcome (withActor nested lister place) sess = (.ok (.done (.records rs)), sess')) :
    ∃ s, sess.process.store? lister.store = some s ∧ s.objects lister.model = .ok rs := by
  simp only [withActor, Outcome.bind_eq, Outcome.get_eq] at h
  split at h
  · cases h
  · split at h
    · cases h
    · split at h
      · simp only [StoreOperation.failure, hwork] at h
        cases h
      · exact objects_of_enterStore hwork h

/-- Listing answers with the records of the store, if with any. -/
theorem objects_of_advance (hwork : lister.work = .list as)
    (h : outcome (advance nested lister) sess = (.ok (.done (.records rs)), sess')) :
    ∃ s, sess.process.store? lister.store = some s ∧ s.objects lister.model = .ok rs := by
  unfold advance at h
  split at h
  · -- with the lock of the store a listing has nothing to do
    simp only [withWriter, Outcome.bind_eq, Outcome.get_eq] at h
    split at h
    · cases h
    · split at h
      · simp only [perform, hwork, updateProcess, Outcome.bind_eq, Outcome.tryFinally_eq,
          Outcome.pure_eq] at h
        cases h
      · cases h
  · exact objects_of_withActor hwork h
  · simp only [Outcome.bind_eq, outcome_updateProcess] at h
    obtain ⟨s, hs, hrs⟩ := objects_of_withActor hwork h
    exact ⟨s, hs, hrs⟩
  · exact objects_of_enterStore hwork h

theorem listsAt_of_showsAt {store : Nat} {m : Model} {s : Store}
    (hstore : sess.process.store? store = some s) {k : Nat} {expected : Record → Prop}
    (h : s.ShowsAt m k expected) : sess.ListsAt store m k expected := by
  intro nested lister as rs sess' hmodel hplace hwork hlisted
  obtain ⟨s', hs', hrs⟩ := objects_of_advance hwork hlisted
  rw [hplace, hstore] at hs'
  cases hs'
  exact h rs (hmodel ▸ hrs)

/-- A call that was answered with a result was made. -/
theorem Advanced.called_of_result {α : Type} {body : Transact α} {answer : α → Answer} {a : Answer}
    (h : Advanced op body answer sess (.ok (.done a), sess')) (hgone : a ≠ .gone)
    (hfailed : ∀ e, a ≠ op.failure e) :
    ∃ s reply s', sess.process.store? op.store = some s ∧ s.transact body = (.ok reply, s') ∧
      a = answer reply ∧ sess'.process.store? op.store = some s' := by
  cases h with
  | gone => exact absurd rfl hgone
  | refused e => exact absurd rfl (hfailed e)
  | @called _ s hs h =>
    cases hresult : s.transact body with
    | mk result s' =>
      rw [hresult] at hfailed h
      cases result with
      | error e => exact absurd rfl (hfailed e)
      | ok reply => exact ⟨s, reply, s', hs, hresult, rfl, by rw [h, Function.update_self]⟩

section

variable {m : Model} {s : Store} {answer : Answer} {r : Record}

/-- What a create answers is listed after all that there was. -/
theorem listsAt_of_create (hm : m.Sound) (hform : m.form = .fields) (hmodel : op.model = m)
    (hstore : sess.process.store? op.store = some s) {given : Record} {values : Values}
    (hwork : op.work = .create values) (hgiven : m.Admits given)
    (hvalues : given.toValues = .ok values)
    (hdone : outcome (advance nested op) sess = (.ok (.done (.record r)), sess')) :
    m.Shown given.fields r ∧
      sess'.ListsAt op.store m (s.tables.table m.typeName).rows.length (· = r) := by
  have hcall : IsCall op.work := by
    rw [hwork]
    trivial
  have hperform : perform nested op = _ := perform_create hwork
  have hadvanced := advanced hcall hperform sess
  rw [hdone, hmodel] at hadvanced
  obtain ⟨s₀, reply, s', hs₀, htransact, hanswer, hs'⟩ :=
    hadvanced.called_of_result nofun fun e => by simp [StoreOperation.failure, hwork]
  cases hstore.symm.trans hs₀
  cases hanswer
  obtain ⟨hr, hshows⟩ := Store.showsAt_create hm hform hgiven hvalues htransact
  exact ⟨hr, listsAt_of_showsAt hs' hshows⟩

/-- What an update answers is listed in its place, but for what its stored form loses. -/
theorem listsAt_of_update (hm : m.Sound) (hform : m.form = .fields) (hmodel : op.model = m)
    (hstore : sess.process.store? op.store = some s)
    (hsound : View.Sound Model.Sound s.tables.table) {i : Identity}
    {changes : List (String × Data)} {member : Option Record}
    (hwork : op.work = .update i changes member) (hchanges : m.TypedChanges changes)
    (hdone : outcome (advance nested op) sess = (.ok (.done answer), sess'))
    (hanswer : answer = .record r ∨ answer = .member r none) :
    (answer = .record r → r.transient = m.defaults) ∧
      (∀ c ∈ changes, r.fields.lookup c.1 = some c.2) ∧
      (∀ e ∈ r.fields, changes.lookup e.1 = none → e.2.Plain) ∧
      ∃ k, (s.tables.table m.typeName).IsAt i k ∧
        sess'.ListsAt op.store m k (m.Shown r.fields) := by
  have hcall : IsCall op.work := by
    rw [hwork]
    trivial
  have hperform : perform nested op = _ := perform_update hwork
  have hadvanced := advanced hcall hperform sess
  rw [hdone, hmodel] at hadvanced
  have hgone : answer ≠ .gone := by
    rintro rfl
    simp at hanswer
  have hfailed (e : StoreError) : answer ≠ op.failure e := by
    rintro rfl
    cases member <;> simp [StoreOperation.failure, hwork] at hanswer
  obtain ⟨s₀, r', s', hs₀, htransact, rfl, hs'⟩ := hadvanced.called_of_result hgone hfailed
  cases hstore.symm.trans hs₀
  obtain ⟨htransient, hgiven, hkept, k, hk, hshows⟩ :=
    Store.showsAt_update (fun _ h => h) hm hform hsound hchanges htransact
  have hr : r.fields = r'.fields ∧ (updateAnswer member r' = .record r → r = r') := by
    cases member with
    | none =>
      obtain rfl : r' = r := by simpa [updateAnswer] using hanswer
      exact ⟨rfl, fun _ => rfl⟩
    | some self =>
      obtain rfl : self.adopt r' = r := by simpa [updateAnswer] using hanswer
      exact ⟨rfl, nofun⟩
  obtain ⟨hfields, hrecord⟩ := hr
  rw [hfields]
  exact ⟨fun h => hrecord h ▸ htransient, hgiven, hkept, k, hk, listsAt_of_showsAt hs' hshows⟩

end

/-- What a create answers is what is listed next, as the last record of its model. What an update
answers has the values that were given, and is listed where it was before: every field as it was
answered, just where its value loses nothing in its stored form, which only a given value can, and
none of a faithful model does. -/
theorem listsAt_of_advance {m : Model} (hm : m.Sound) (hform : m.form = .fields)
    (hmodel : op.model = m) {identifier : String} {events : List Store.Event}
    (hevents : ∀ e ∈ events, e.Typed Model.Sound)
    (hstore : sess.process.store? op.store =
      some (Store.after { identifier := identifier } events)) {answer : Answer}
    (hdone : outcome (advance nested op) sess = (.ok (.done answer), sess')) :
    let t := (Store.after { identifier := identifier } events).tables.table m.typeName
    (∀ given values, op.work = .create values → m.Admits given → given.toValues = .ok values →
      ∀ r, answer = .record r →
        m.Shown given.fields r ∧ sess'.ListsAt op.store m t.rows.length (· = r)) ∧
    (∀ i changes member, op.work = .update i changes member → m.TypedChanges changes →
      ∀ r, answer = .record r ∨ answer = .member r none →
        (answer = .record r → r.transient = m.defaults) ∧
        (∀ c ∈ changes, r.fields.lookup c.1 = some c.2) ∧
        (∀ e ∈ r.fields, changes.lookup e.1 = none → e.2.Plain) ∧
        ∃ k, t.IsAt i k ∧ sess'.ListsAt op.store m k (m.Shown r.fields)) := by
  have hsound := Store.after_sound (fun _ h => h) hevents (Store.sound_empty _ identifier)
  constructor
  · rintro given values hwork hgiven hvalues r rfl
    exact listsAt_of_create hm hform hmodel hstore hwork hgiven hvalues hdone
  · intro i changes member hwork hchanges r hanswer
    exact listsAt_of_update hm hform hmodel hstore hsound hwork hchanges hdone hanswer

def accountHistory : List Store.Event :=
  [.write (.volatile "db") (.call (.create .account
    [("id", .string "x"), ("owner", .string "o"), ("balance", .integer 5)])
      fun _ => .finish (.ok ()))]

def staleAccount : Record :=
  ⟨[("id", .string "x"), ("owner", .string "p"), ("balance", .integer 1)], []⟩

def accountUpdate : StoreOperation where
  ticket := 0
  model := .account
  actor := none
  store := 0
  configuration := .volatile "db"
  work := .update (.primaryKey (.string "x")) [("balance", .integer 7)] (some staleAccount)

theorem typed_accountHistory : ∀ e ∈ accountHistory, e.Typed Model.Sound := by
  intro e he
  obtain rfl := List.mem_singleton.mp he
  exact ⟨⟨Model.sound_account, by decide, trivial, trivial, rfl, trivial⟩, fun _ _ => trivial⟩

/-- The account that was updated through a stale copy is listed as it was answered. -/
theorem listsAt_of_advance_stale :
    ∃ sess', outcome (advance (fun _ => pure .gone) accountUpdate)
        { process := ⟨[{ store := Store.after { identifier := "db" } accountHistory }], []⟩ } =
        (.ok (.done (.member
          ⟨[("id", .string "x"), ("owner", .string "o"), ("balance", .integer 7)], []⟩ none)),
          sess') ∧
      ∃ k, sess'.ListsAt 0 .account k fun shown =>
        shown.fields = [("id", .string "x"), ("owner", .string "o"), ("balance", .integer 7)] := by
  obtain ⟨sess', hdone⟩ : ∃ sess', outcome (advance (fun _ => pure .gone) accountUpdate)
      { process := ⟨[{ store := Store.after { identifier := "db" } accountHistory }], []⟩ } =
      (.ok (.done (.member
        ⟨[("id", .string "x"), ("owner", .string "o"), ("balance", .integer 7)], []⟩ none)),
        sess') := ⟨_, rfl⟩
  have hfaithful : Model.account.Faithful :=
    Model.faithful_of_mem_catalog (show ("Account", Model.account) ∈ _ from mem_of_lookup rfl) rfl
  have hchanges : Model.account.TypedChanges [("balance", .integer 7)] := by
    refine ⟨⟨by decide, by decide⟩, fun f hf d hd => ?_⟩
    simp only [Model.account, List.mem_cons, List.not_mem_nil, or_false] at hf
    rcases hf with rfl | rfl | rfl
    · cases hd
    · cases hd
    · cases hd
      exact ⟨_, rfl, by decide⟩
  obtain ⟨-, hupdate⟩ :=
    listsAt_of_advance Model.sound_account rfl rfl typed_accountHistory rfl hdone
  obtain ⟨-, -, -, k, -, hlists⟩ := hupdate _ _ _ rfl hchanges _ (.inr rfl)
  refine ⟨sess', hdone, k, fun nested lister as rs sess'' hmodel hstore hwork hlisted => ?_⟩
  obtain ⟨shown, hshown, hrecord⟩ := hlists nested lister as rs sess'' hmodel hstore hwork hlisted
  exact ⟨shown, hshown, hrecord.faithful hfaithful⟩

def meter : Model where
  typeName := "Meter"
  fields := [
    { name := "id", type := .string, isPrimaryKey := true },
    { name := "level", type := .option .f64 }]

def meterHistory : List Store.Event :=
  [.write (.volatile "db") (.call (.create meter [("id", .string "x"), ("level", .null)])
    fun _ => .finish (.ok ()))]

def brokenMeter : Record := ⟨[("id", .string "x"), ("level", .present (.float .nan))], []⟩

def meterUpdate : StoreOperation where
  ticket := 0
  model := meter
  actor := none
  store := 0
  configuration := .volatile "db"
  work := .update (.primaryKey (.string "x")) [("level", .present (.float .nan))] none

def meterList : StoreOperation := { meterUpdate with work := .list none }

theorem sound_meter : meter.Sound := ⟨by decide, by decide, by decide⟩

theorem typed_meterHistory : ∀ e ∈ meterHistory, e.Typed Model.Sound := by
  intro e he
  obtain rfl := List.mem_singleton.mp he
  exact ⟨⟨sound_meter, by decide, trivial, trivial, trivial⟩, fun _ _ => trivial⟩

/-- An update to a number that is not finite is answered with that number, and the record is listed
without one. -/
theorem not_listsAt_brokenMeter :
    ¬ ∀ (m : Model) (op : StoreOperation) (sess sess' : Session) (events : List Store.Event)
        (i : Identity) (changes : List (String × Data)) (r : Record), m.Sound → m.form = .fields →
      op.model = m → (∀ e ∈ events, e.Typed Model.Sound) →
      sess.process.store? op.store = some (Store.after { identifier := "db" } events) →
      op.work = .update i changes none → m.TypedChanges changes →
      outcome (advance (fun _ => pure .gone) op) sess = (.ok (.done (.record r)), sess') →
      ∃ k, ((Store.after { identifier := "db" } events).tables.table m.typeName).IsAt i k ∧
        sess'.ListsAt op.store m k (· = r) := by
  intro h
  let sess : Session :=
    { process := ⟨[{ store := Store.after { identifier := "db" } meterHistory }], []⟩ }
  obtain ⟨sess', sess'', hdone, hlisted⟩ : ∃ sess' sess'',
      outcome (advance (fun _ => pure .gone) meterUpdate) sess =
        (.ok (.done (.record brokenMeter)), sess') ∧
      outcome (advance (fun _ => pure .gone) meterList) sess' =
        (.ok (.done (.records [⟨[("id", .string "x"), ("level", .absent)], []⟩])), sess'') :=
    ⟨_, _, rfl, rfl⟩
  have hchanges : meter.TypedChanges [("level", .present (.float .nan))] := by
    refine ⟨⟨by decide, by decide⟩, fun f hf d hd => ?_⟩
    simp only [meter, List.mem_cons, List.not_mem_nil, or_false] at hf
    rcases hf with rfl | rfl
    · cases hd
    · cases hd
      exact ⟨_, rfl, _, rfl⟩
  obtain ⟨k, ⟨n, old, -, hk⟩, hlists⟩ := h meter meterUpdate sess sess' meterHistory _ _ _
    sound_meter rfl rfl typed_meterHistory rfl rfl hchanges hdone
  obtain ⟨shown, hshown, rfl⟩ := hlists _ meterList none _ sess'' rfl rfl rfl hlisted
  cases k with
  | zero => cases hshown
  | succ k => cases hk

end RecordStore.Session
