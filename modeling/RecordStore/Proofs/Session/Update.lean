import RecordStore.Proofs.Session.Operation
import RecordStore.Proofs.Store.PartialUpdate

/-!
Updates as operations. Letting an update go on either leaves every store as it was, or makes a
partial update of its own store and answers the new record; the record that a member update was
called on takes over its persisted fields and keeps its transient ones. It never panics.
-/
namespace RecordStore.Session

/-- What an update of the counterpart of a record answers, and what becomes of its store. -/
inductive UpdateDone (m : Model) (wanted : Values) (changes : List (String × Data))
    (member : Option Record) (s : Store) : Answer → Store → Prop
  | updated {r : Record} {s' : Store} (hmember : member = none)
      (h : Store.PartialUpdate m wanted changes r s s') :
      UpdateDone m wanted changes member s (.record r) s'
  | memberUpdated {self r : Record} {s' : Store} (hmember : member = some self)
      (h : Store.PartialUpdate m wanted changes r s s') :
      UpdateDone m wanted changes member s (.member { self with fields := r.fields } none) s'
  | failed (e : StoreError) (hmember : member = none) :
      UpdateDone m wanted changes member s (.failed e) s
  | memberFailed {self : Record} (e : StoreError) (hmember : member = some self) :
      UpdateDone m wanted changes member s (.member self (some e)) s
  /-- There is no such actor. -/
  | gone : UpdateDone m wanted changes member s .gone s

def UpdateProgress (m : Model) (wanted : Values) (changes : List (String × Data))
    (member : Option Record) (s : Store) : Progress → Store → Prop
  | .done answer, s' => UpdateDone m wanted changes member s answer s'
  | .waiting _, s' => s' = s

variable {m : Model} {object : Record} {wanted : Values} {i : Identity}
  {changes : List (String × Data)} {member : Option Record} {op : StoreOperation}

theorem updateDone_failure (hwork : op.work = .update i changes member) (e : StoreError)
    (s : Store) : UpdateDone m wanted changes member s (op.failure e) s := by
  unfold StoreOperation.failure
  rw [hwork]
  cases member with
  | none => exact .failed e rfl
  | some self => exact .memberFailed e rfl

/-- Letting an update go on changes at most its own store, in which it makes a partial update or
nothing, whatever the store has been through. The model recognizes its rows if the others that wrote
to its table are apart from it, and its table is indexed if they have its primary key. -/
theorem partialUpdate_of_advance (hm : m.Sound) (hform : m.form = .fields)
    (hobject : m.identity object = .ok i) (hwanted : object.toValues = .ok wanted)
    (hchanges : m.Changes changes) (hmodel : op.model = m)
    (hwork : op.work = .update i changes member) {identifier : String} {events : List Store.Event}
    (hevents : ∀ e ∈ events, e.Typed Model.Sound) {sess : Session}
    (hstore : sess.process.store? op.store =
      some (Store.after { identifier := identifier } events)) (nested : Request → Run Answer) :
    (∃ progress sess' s', outcome (advance nested op) sess = (.ok progress, sess') ∧
      sess'.process.store? = Function.update sess.process.store? op.store (some s') ∧
      UpdateProgress m wanted changes member (Store.after { identifier := identifier } events)
        progress s') ∧
    ((∀ e ∈ events, e.Typed m.Apart) →
      ((Store.after { identifier := identifier } events).tables.table m.typeName).Recognizes m) ∧
    ((∀ e ∈ events, e.Typed m.SharesIndex) →
      ((Store.after { identifier := identifier } events).tables.table m.typeName).Indexed
        m.primaryKey?) := by
  refine ⟨?_, Store.recognizes_after identifier, Store.indexed_after identifier⟩
  have hsound := Store.after_sound (fun _ h => h) hevents (Store.sound_empty _ identifier)
  generalize Store.after { identifier := identifier } events = s at hstore hsound ⊢
  have hself : sess.process.store? =
      Function.update sess.process.store? op.store (some s) := by
    rw [← hstore, Function.update_eq_self]
  have hcall : IsCall op.work := by
    rw [hwork]
    trivial
  have hperform : perform nested op = _ := perform_update hwork
  rw [hmodel] at hperform
  have hadvanced := advanced hcall hperform sess
  generalize outcome (advance nested op) sess = result at hadvanced
  cases hadvanced with
  | @waiting sess' stage h => exact ⟨_, sess', s, rfl, h.trans hself, rfl⟩
  | @gone sess' h => exact ⟨_, sess', s, rfl, h.trans hself, .gone⟩
  | @refused sess' e h => exact ⟨_, sess', s, rfl, h.trans hself, updateDone_failure hwork e s⟩
  | @called sess' s₀ hs₀ h =>
    obtain rfl : s = s₀ := Option.some.inj (hstore.symm.trans hs₀)
    refine ⟨_, sess', _, rfl, h, ?_⟩
    rcases Store.transact_update (fun _ h => h) hm hform hobject hwanted hchanges hsound with
      ⟨r, s', htransact, hupdate⟩ | ⟨e, htransact⟩
    · rw [htransact]
      cases member with
      | none => exact .updated rfl hupdate
      | some self => exact .memberUpdated rfl hupdate
    · rw [htransact]
      exact updateDone_failure hwork e s

/-- A store in which an account was created, and one of the newer version with the same owner. The
owner is the primary key of the second only. -/
def versionsHistory : List Store.Event := [
  .write (.volatile "db") (.call (.create .account
      [("id", .string "x"), ("owner", .string "o"), ("balance", .integer 5)]) fun _ => .call
    (.create .accountV2 [("id", .string "z"), ("owner", .string "o"), ("balance", .null)])
    fun _ => .finish (.ok ()))]

def staleVersion : Record :=
  ⟨[("id", .string "w"), ("owner", .string "o"), ("balance", .absent)], []⟩

def versionUpdate (owner : String) (member : Option Record) : StoreOperation where
  ticket := 0
  model := .accountV2
  actor := none
  store := 0
  configuration := .volatile "db"
  work := .update (.primaryKey (.string owner)) [("balance", .present (.string "5"))] member

def sessionAfter (events : List Store.Event) : Session :=
  { process := ⟨[{ store := Store.after { identifier := "db" } events }], []⟩ }

theorem changes_balance : Model.accountV2.Changes [("balance", .present (.string "5"))] :=
  ⟨by decide, by decide⟩

theorem typed_versionsHistory {models : Model → Prop} (haccount : models .account)
    (hversion : models .accountV2) : ∀ e ∈ versionsHistory, e.Typed models := by
  intro e he
  obtain rfl := List.mem_singleton.mp he
  exact ⟨⟨haccount, by decide, trivial, trivial, rfl, trivial⟩, fun _ _ =>
    ⟨⟨hversion, by decide, trivial, trivial, trivial, trivial⟩, fun _ _ => trivial⟩⟩

/-- The newer account is updated although the first row with its owner is that of the other. -/
theorem partialUpdate_of_advance_stale :
    (∀ e ∈ versionsHistory, e.Typed Model.Sound) ∧
    (∃ progress sess' s',
      outcome (advance (fun _ => pure .gone) (versionUpdate "o" (some staleVersion)))
          (sessionAfter versionsHistory) = (.ok progress, sess') ∧
      sess'.process.store? =
        Function.update (sessionAfter versionsHistory).process.store? 0 (some s') ∧
      UpdateProgress .accountV2 [("id", .string "w"), ("owner", .string "o"), ("balance", .null)]
        [("balance", .present (.string "5"))] (some staleVersion)
        (Store.after { identifier := "db" } versionsHistory) progress s') ∧
    ((Store.after { identifier := "db" } versionsHistory).tables.table "Account").Recognizes
      .accountV2 := by
  have hobject : Model.accountV2.identity staleVersion = .ok (.primaryKey (.string "o")) := rfl
  have hwork : (versionUpdate "o" (some staleVersion)).work =
      .update (.primaryKey (.string "o")) [("balance", .present (.string "5"))]
        (some staleVersion) := rfl
  have hstore : (sessionAfter versionsHistory).process.store? 0 =
      some (Store.after { identifier := "db" } versionsHistory) := rfl
  have htyped := typed_versionsHistory Model.sound_account Model.sound_accountV2
  obtain ⟨hprogress, hrecognizes, -⟩ := partialUpdate_of_advance Model.sound_accountV2 rfl hobject
    rfl changes_balance rfl hwork htyped hstore (fun _ => pure .gone)
  exact ⟨htyped, hprogress, hrecognizes (typed_versionsHistory Model.apart_account_accountV2.2
    ⟨Model.sound_accountV2, fun _ => .inl rfl⟩)⟩

def rawHistory : List Store.Event :=
  [.write (.volatile "db") (.call (.add .rawAccount
    ⟨[("id", .json (.string "x")), ("owner", .json (.string "o")), ("balance", .json .null)], []⟩)
      fun _ => .finish (.ok ()))]

theorem typed_rawHistory : ∀ e ∈ rawHistory, e.Typed Model.Sound := by
  intro e he
  obtain rfl := List.mem_singleton.mp he
  refine ⟨⟨Model.sound_rawAccount, by decide, fun e he => ?_⟩, fun _ _ => trivial⟩
  simp only [List.mem_cons, List.not_mem_nil, or_false] at he
  rcases he with rfl | rfl | rfl <;> exact ⟨_, rfl, trivial⟩

/-- Where a model shares its type name, an update can succeed on a row that does not have the
primary key of the record. -/
theorem not_first_of_sharedTypeName :
    ¬ ∀ (m : Model) (object : Record) (wanted : Values) (i : Identity)
        (changes : List (String × Data)) (op : StoreOperation) (events : List Store.Event)
        (sess sess' : Session) (r : Record), m.Sound → m.form = .fields →
        m.identity object = .ok i → object.toValues = .ok wanted → m.Changes changes →
        op.model = m → op.work = .update i changes none → (∀ e ∈ events, e.Typed Model.Sound) →
        sess.process.store? op.store = some (Store.after { identifier := "db" } events) →
        outcome (advance (fun _ => pure .gone) op) sess = (.ok (.done (.record r)), sess') →
        ∃ k, ((Store.after { identifier := "db" } events).tables.table m.typeName).values.findIdx?
          (m.isCounterpart wanted) = some k := by
  intro h
  obtain ⟨k, hk⟩ := h .accountV2
    ⟨[("id", .string "x"), ("owner", .string "x"), ("balance", .absent)], []⟩ _ _ _
    (versionUpdate "x" none) rawHistory (sessionAfter rawHistory) _ _ Model.sound_accountV2 rfl rfl
    rfl changes_balance rfl rfl typed_rawHistory rfl rfl
  have hnone : ((Store.after { identifier := "db" } rawHistory).tables.table
      "Account").values.findIdx? (Model.accountV2.isCounterpart
        [("id", .string "x"), ("owner", .string "x"), ("balance", .null)]) = none := rfl
  exact nomatch hnone.symm.trans hk

end RecordStore.Session
