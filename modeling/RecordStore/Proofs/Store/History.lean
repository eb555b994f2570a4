import RecordStore.Proofs.Store.Invariant

/-!
Histories of a store. A write commits what its script shows at the end, and every observer of a
table that differs from before is told once; a write that fails leaves the store as it was. Every
store that typed events lead to has sound tables.
-/
namespace RecordStore

namespace Observer

def told (old t : Table) (o : Observer) : Observer :=
  if (t.changesSince old).isEmpty then o
  else o.notify o.model.typeName t (t.changesSince old)

theorem model_notify (o : Observer) (name : String) (t : Table) (indices : ChangeIndices) :
    (o.notify name t indices).model = o.model := by
  unfold notify
  split <;> rfl

theorem subscription_notify (o : Observer) (name : String) (t : Table) (indices : ChangeIndices) :
    (o.notify name t indices).subscription = o.subscription := by
  unfold notify
  split <;> rfl

/-- An observer is not told of tables that are not its own. -/
theorem notify_of_ne (o : Observer) {name : String} (h : o.model.typeName ≠ name) (t : Table)
    (indices : ChangeIndices) : o.notify name t indices = o := by
  simp [notify, h]

theorem model_told (old t : Table) (o : Observer) : (o.told old t).model = o.model := by
  unfold told
  split
  · rfl
  · exact model_notify ..

theorem subscription_told (old t : Table) (o : Observer) :
    (o.told old t).subscription = o.subscription := by
  unfold told
  split
  · rfl
  · exact subscription_notify ..

end Observer

theorem Table.sameRows_self {models : Model → Prop} (hmodels : ∀ m, models m → m.Sound)
    {typeName : String} {t : Table} (h : t.Sound models typeName) : SameRows t t :=
  List.forall₂_same.mpr fun _ hr =>
    ⟨rfl, Values.same_self (h.proper hmodels (List.mem_map_of_mem hr))⟩

/-- A version like the one before is not told. -/
theorem Observer.told_self {models : Model → Prop} (hmodels : ∀ m, models m → m.Sound)
    {typeName : String} {t : Table} (h : t.Sound models typeName) (o : Observer) :
    o.told t t = o := by
  have hsame := Table.sameRows_self hmodels h
  have hempty := (Table.changesSince_isEmpty h.ordered h.ordered).mpr hsame
  simp [told, hempty]

theorem Tables.get_of_not_mem {tables : Tables} {name : String}
    (h : name ∉ tables.map Prod.fst) : tables.get? name = none := by
  cases hget : tables.get? name with
  | none => rfl
  | some t => exact absurd (List.mem_map_of_mem (mem_of_lookup hget)) h

/-- What is found once tables were staged is the staged table, if there is one of the name. -/
theorem Tables.get_foldl_set {staged : Tables} (hnames : (staged.map Prod.fst).Nodup) :
    ∀ (tables : Tables) (n : String),
      (staged.foldl (fun tables c => tables.set c.1 c.2) tables).get? n =
        (staged.get? n).or (tables.get? n) := by
  induction staged with
  | nil => exact fun _ _ => rfl
  | cons c rest ih =>
    intro tables n
    obtain ⟨name, t⟩ := c
    obtain ⟨hnot, hrest⟩ := List.nodup_cons.mp hnames
    rw [List.foldl_cons, ih hrest, get_set, get_cons]
    by_cases h : n = name
    · subst h
      simp [get_of_not_mem hnot]
    · simp [h]

namespace Store

/-- A committed table is told to the observers of its model, and to no others. -/
theorem notify_eq_map (before : Tables) (observers : List Observer) (name : String) (t : Table) :
    notify before observers (name, t) = observers.map fun o =>
      if o.model.typeName = name then o.told (before.table name) t else o := by
  unfold notify
  simp only
  split
  · next h =>
    have hid : ∀ o ∈ observers,
        (if o.model.typeName = name then o.told (before.table name) t else o) = o := by
      intro o _
      split
      · simp [Observer.told, h]
      · rfl
    rw [List.map_congr_left hid, List.map_id']
  · next h =>
    refine List.map_congr_left fun o _ => ?_
    split
    · next ho => simp [Observer.told, h, ho]
    · next ho => exact o.notify_of_ne ho t _

/-- Each observer is told of the one copy that there is of its table. -/
theorem foldl_notify (before : Tables) {staged : Tables} (hnames : (staged.map Prod.fst).Nodup) :
    ∀ observers : List Observer, staged.foldl (notify before) observers =
      observers.map fun o =>
        match staged.get? o.model.typeName with
        | some t => o.told (before.table o.model.typeName) t
        | none => o := by
  induction staged with
  | nil =>
    intro observers
    exact (List.map_id' observers).symm
  | cons c rest ih =>
    intro observers
    obtain ⟨name, t⟩ := c
    obtain ⟨hnot, hrest⟩ := List.nodup_cons.mp hnames
    rw [List.foldl_cons, ih hrest, notify_eq_map, List.map_map]
    refine List.map_congr_left fun o _ => ?_
    simp only [Function.comp_apply, Tables.get_cons]
    by_cases h : o.model.typeName = name
    · simp [h, Observer.model_told, Tables.get_of_not_mem hnot]
    · simp [h]

/-- What a store becomes by a commit. -/
structure Committed (s s' : Store) (v : View) : Prop where
  identifier : s'.identifier = s.identifier
  tables : s'.tables.table = v
  observers : s'.observers = s.observers.map fun o =>
    o.told (s.tables.table o.model.typeName) (v o.model.typeName)

/-- A commit shows what its transaction showed. -/
theorem tables_commit {s : Store} {t : Transaction} {v : View} (ht : s.begin.Reaches t v) :
    (s.commit t).tables.table = v := by
  have hnames : (t.staged.map Prod.fst).Nodup := ht.names_nodup List.nodup_nil
  have hbase : t.base = s.tables := ht.base
  funext n
  rw [← ht.view, Transaction.writable_eq, hbase]
  simp only [commit, Tables.table, Tables.get_foldl_set hnames]
  cases Tables.get? t.staged n <;> rfl

/-- Committing what a transaction has reached makes it the tables of the store and tells its
observers. -/
theorem committed_commit {models : Model → Prop} (hmodels : ∀ m, models m → m.Sound) {s : Store}
    (hs : View.Sound models s.tables.table) {t : Transaction} {v : View}
    (ht : s.begin.Reaches t v) : Committed s (s.commit t) v := by
  have hnames : (t.staged.map Prod.fst).Nodup := ht.names_nodup List.nodup_nil
  have hbase : t.base = s.tables := ht.base
  refine ⟨rfl, tables_commit ht, ?_⟩
  simp only [commit, foldl_notify s.tables hnames]
  refine List.map_congr_left fun o _ => ?_
  rw [← ht.view, Transaction.writable_eq, hbase]
  cases Tables.get? t.staged o.model.typeName with
  | some table => rfl
  | none => exact (o.told_self hmodels (hs o.model.typeName)).symm

variable {models : Model → Prop} {α : Type}

theorem transact_eq (s : Store) (body : Transact α) :
    s.transact body = match outcome body s.begin with
      | (.ok a, t) => (.ok a, s.commit t)
      | (.error e, _) => (.error e, s) := rfl

theorem identifier_transact (s : Store) (body : Transact α) :
    (s.transact body).2.identifier = s.identifier := by
  rw [transact_eq]
  rcases outcome body s.begin with ⟨_ | _, _⟩ <;> rfl

/-- A read-only handle refuses every write and changes nothing. -/
theorem write_of_readOnly (s : Store) {c : Configuration} (hc : c.readOnly = true)
    (body : Transact α) : s.write c body = (.error (.readOnly s.identifier), s) := by
  simp [write, hc]

theorem write_of_writable (s : Store) {c : Configuration} (hc : c.readOnly = false)
    (body : Transact α) : s.write c body = s.transact body := by
  simp [write, hc]

theorem identifier_write (s : Store) (c : Configuration) (body : Transact α) :
    (s.write c body).2.identifier = s.identifier := by
  cases hc : c.readOnly with
  | true => rw [s.write_of_readOnly hc]
  | false => rw [s.write_of_writable hc, identifier_transact]

theorem begin_writable (s : Store) : s.begin.writable = s.tables.table := by
  funext n
  rw [Transaction.writable_eq]
  rfl

/-- A transaction of one operation commits a change of one table, or does nothing. -/
theorem transact_perform (s : Store) (a : Access) :
    match a.attempt (s.tables.table a.typeName) with
    | .ok (reply, table) => ∃ t, s.transact a.perform = (.ok reply, s.commit t) ∧
        s.begin.Reaches t (Function.update s.tables.table a.typeName table)
    | .error e => s.transact a.perform = (.error e, s) := by
  obtain ⟨t, hrun, hreaches⟩ := outcome_perform a s.begin
  rw [begin_writable] at hrun hreaches
  rw [transact_eq, hrun]
  unfold Access.onView at hreaches ⊢
  cases h : a.attempt (s.tables.table a.typeName) with
  | error e => rfl
  | ok result =>
    rw [h] at hreaches
    exact ⟨t, rfl, hreaches⟩

theorem transact_of_error {s : Store} {a : Access} {e : StoreError}
    (h : a.attempt (s.tables.table a.typeName) = .error e) :
    s.transact a.perform = (.error e, s) := by
  have hperform := s.transact_perform a
  rw [h] at hperform
  exact hperform

theorem transact_of_ok {s : Store} {a : Access} {reply : a.Reply} {t : Table}
    (h : a.attempt (s.tables.table a.typeName) = .ok (reply, t)) :
    ∃ s', s.transact a.perform = (.ok reply, s') ∧
      s'.tables.table = Function.update s.tables.table a.typeName t := by
  have hperform := s.transact_perform a
  rw [h] at hperform
  obtain ⟨staged, hrun, hreaches⟩ := hperform
  exact ⟨s.commit staged, hrun, tables_commit hreaches⟩

/-- A transaction does what its script does on the tables of the store. -/
theorem transact_script (hmodels : ∀ m, models m → m.Sound) {s : Store}
    (hs : View.Sound models s.tables.table) (script : Script α) :
    match script.onView s.tables.table with
    | (.ok a, v) => ∃ s', s.transact script.run = (.ok a, s') ∧ Committed s s' v
    | (.error e, _) => s.transact script.run = (.error e, s) := by
  obtain ⟨t, hrun, hreaches⟩ := script.outcome_run s.begin
  rw [begin_writable] at hrun hreaches
  rw [transact_eq, hrun]
  rcases h : script.onView s.tables.table with ⟨e | a, v⟩
  · rfl
  · rw [h] at hreaches
    exact ⟨s.commit t, rfl, committed_commit hmodels hs hreaches⟩

/-- What can happen to a store. Dropping an observation invalidates it, and closing an actor
invalidates those that it started. -/
inductive Event where
  | write (configuration : Configuration) (body : Script Unit)
  | observe (model : Model) (isReachable : Bool)
  | receive (subscription : Nat)
  | invalidate (subscription : Nat)
  | close (subscriptions : List Nat)
  | cancel (subscription : Nat)
  | discard

def invalidateAll (s : Store) (subscriptions : List Nat) : Store :=
  subscriptions.foldl (fun s id => (s.invalidate id).2) s

def step (s : Store) : Event → Store
  | .write c body => (s.write c body.run).2
  | .observe m isReachable => (s.observe m isReachable).2
  | .receive id => (s.receive id).2
  | .invalidate id => (s.invalidate id).2
  | .close ids => s.invalidateAll ids
  | .cancel id => s.cancel id
  | .discard => s.discard

/-- The store after some events. -/
def after (s : Store) (events : List Event) : Store := events.foldl step s

theorem after_append (s : Store) (events more : List Event) :
    s.after (events ++ more) = (s.after events).after more := List.foldl_append

def Event.Typed (models : Model → Prop) : Event → Prop
  | .write _ body => body.Typed models
  | _ => True

/-- What a write does: its script commits, or nothing changes. -/
inductive Written (s : Store) (c : Configuration) (body : Script α) :
    Except StoreError α × Store → Prop
  | committed {a : α} {v : View} {s' : Store} (hc : c.readOnly = false)
      (hbody : body.onView s.tables.table = (.ok a, v)) (hs' : Committed s s' v) :
      Written s c body (.ok a, s')
  | failed {e : StoreError} {v : View} (hc : c.readOnly = false)
      (hbody : body.onView s.tables.table = (.error e, v)) : Written s c body (.error e, s)
  | refused (hc : c.readOnly = true) : Written s c body (.error (.readOnly s.identifier), s)

/-- A write does what its script does on the tables, or nothing. -/
theorem written (hmodels : ∀ m, models m → m.Sound) {s : Store}
    (hs : View.Sound models s.tables.table) (c : Configuration) (body : Script α) :
    Written s c body (s.write c body.run) := by
  cases hc : c.readOnly with
  | true =>
    rw [s.write_of_readOnly hc]
    exact .refused hc
  | false =>
    have h := transact_script hmodels hs body
    rw [s.write_of_writable hc]
    rcases hbody : body.onView s.tables.table with ⟨e | a, v⟩
    · rw [hbody] at h
      rw [h]
      exact .failed hc hbody
    · rw [hbody] at h
      obtain ⟨s', hs', hcommitted⟩ := h
      rw [hs']
      exact .committed hc hbody hcommitted

theorem tables_receive (s : Store) (id : Nat) : (s.receive id).2.tables = s.tables := by
  unfold receive
  split <;> rfl

theorem tables_invalidate (s : Store) (id : Nat) : (s.invalidate id).2.tables = s.tables := by
  unfold invalidate
  split <;> rfl

theorem tables_invalidateAll (s : Store) (ids : List Nat) :
    (s.invalidateAll ids).tables = s.tables := by
  induction ids generalizing s with
  | nil => rfl
  | cons id rest ih => exact (ih _).trans (tables_invalidate s id)

theorem tables_observe (s : Store) (m : Model) (isReachable : Bool) :
    (s.observe m isReachable).2.tables = s.tables := by
  unfold observe
  split <;> rfl

/-- Only writes change tables. -/
theorem tables_step (s : Store) {e : Event} (h : ∀ c body, e ≠ .write c body) :
    (s.step e).tables = s.tables := by
  cases e with
  | write c body => exact absurd rfl (h c body)
  | observe m isReachable => exact tables_observe s m isReachable
  | receive id => exact tables_receive s id
  | invalidate id => exact tables_invalidate s id
  | close ids => exact tables_invalidateAll s ids
  | cancel id => rfl
  | discard => rfl

/-- What typed operations keep, typed events keep. -/
theorem step_invariant (hmodels : ∀ m, models m → m.Sound) {P : View → Prop}
    (hP : ∀ (a : Access) (v : View), a.Typed models → v.Sound models → P v → P (a.onView v).2)
    {s : Store} (hs : View.Sound models s.tables.table) (hp : P s.tables.table) {e : Event}
    (he : e.Typed models) :
    View.Sound models (s.step e).tables.table ∧ P (s.step e).tables.table := by
  by_cases hwrite : ∀ c body, e ≠ .write c body
  · rw [tables_step s hwrite]
    exact ⟨hs, hp⟩
  · obtain ⟨c, body, rfl⟩ : ∃ c body, e = .write c body := by
      simpa using hwrite
    have hw := written hmodels hs c body
    show View.Sound models (s.write c body.run).2.tables.table ∧
      P (s.write c body.run).2.tables.table
    generalize s.write c body.run = result at hw ⊢
    cases hw with
    | @committed a v s' hc hbody hs' =>
      have hinv := Script.onView_invariant hmodels hP body s.tables.table he hs hp
      rw [hbody] at hinv
      rw [hs'.tables]
      exact hinv
    | failed => exact ⟨hs, hp⟩
    | refused => exact ⟨hs, hp⟩

/-- Tables stay sound. -/
theorem step_sound (hmodels : ∀ m, models m → m.Sound) {s : Store}
    (hs : View.Sound models s.tables.table) {e : Event} (he : e.Typed models) :
    View.Sound models (s.step e).tables.table :=
  (step_invariant (P := fun _ => True) hmodels (fun _ _ _ _ _ => trivial) hs trivial he).1

/-- What typed operations keep, typed histories keep. -/
theorem after_invariant (hmodels : ∀ m, models m → m.Sound) {P : View → Prop}
    (hP : ∀ (a : Access) (v : View), a.Typed models → v.Sound models → P v → P (a.onView v).2) :
    ∀ (events : List Event) (s : Store), (∀ e ∈ events, e.Typed models) →
      View.Sound models s.tables.table → P s.tables.table →
        View.Sound models (s.after events).tables.table ∧ P (s.after events).tables.table
  | [], _, _, hs, hp => ⟨hs, hp⟩
  | e :: rest, s, hevents, hs, hp => by
    obtain ⟨hs', hp'⟩ := step_invariant hmodels hP hs hp (hevents e (List.mem_cons_self ..))
    exact after_invariant hmodels hP rest (s.step e)
      (fun e he => hevents e (List.mem_cons_of_mem _ he)) hs' hp'

theorem sound_empty (models : Model → Prop) (identifier : String) :
    View.Sound models (Store.tables { identifier := identifier }).table :=
  fun typeName => Table.sound_empty models typeName

theorem after_sound (hmodels : ∀ m, models m → m.Sound) {events : List Event} {s : Store}
    (hevents : ∀ e ∈ events, e.Typed models) (hs : View.Sound models s.tables.table) :
    View.Sound models (s.after events).tables.table :=
  (after_invariant (P := fun _ => True) hmodels (fun _ _ _ _ _ => trivial) events s hevents hs
    trivial).1

/-- A table keeps its index where the models of its type name have one primary key. -/
theorem after_indexed (hmodels : ∀ m, models m → m.Sound) {typeName : String}
    {primaryKey? : Option String}
    (hkey : ∀ m, models m → m.typeName = typeName → m.primaryKey? = primaryKey?)
    {events : List Event} {s : Store} (hevents : ∀ e ∈ events, e.Typed models)
    (hs : View.Sound models s.tables.table)
    (hi : (s.tables.table typeName).Indexed primaryKey?) :
    ((s.after events).tables.table typeName).Indexed primaryKey? :=
  (after_invariant (P := fun v => (v typeName).Indexed primaryKey?) hmodels
    (fun _ _ ha hv hi => Access.onView_indexed hmodels hkey ha hv hi) events s hevents hs hi).2

end Store

end RecordStore
