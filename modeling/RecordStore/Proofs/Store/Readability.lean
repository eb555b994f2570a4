import RecordStore.Proofs.Store.History
import Mathlib.Data.List.Induction

/-!
Which stores can be listed. A record that was created can be read back, so a row that cannot is due
to an operation that stores without reading: one that adds or modifies, or one of another model with
the same type name. Along any history the records of a model can be listed throughout just where
every row that such an operation wrote, and that is there after its commit, can be read.
-/
namespace RecordStore

/-- The row that a successful operation has stored, if it stores one. -/
def Access.stored : (a : Access) → a.Reply → Option Values
  | .create _ _, r => r.toValues.toOption
  | .add _ r, _ => r.toValues.toOption
  | .modify _ _ _, r => r.toValues.toOption
  | _, _ => none

/-- An operation that stores a row in the table of a model without reading it as that model. -/
def Access.StoresUnread (m : Model) (t : Table) (a : Access) (row : Values) : Prop :=
  a.typeName = m.typeName ∧ (∀ values, a ≠ .create m values) ∧
    ∃ reply t', a.attempt t = .ok (reply, t') ∧ a.stored reply = some row

def Script.StoresUnread {α : Type} (m : Model) : Script α → View → Values → Prop
  | .finish _, _, _ => False
  | .call a next, v, row =>
    a.StoresUnread m (v m.typeName) row ∨
      (next (a.onView v).1).StoresUnread m (a.onView v).2 row

def Store.Event.StoresUnread (m : Model) (s : Store) (row : Values) : Store.Event → Prop
  | .write _ body => body.StoresUnread m s.tables.table row
  | _ => False

def Store.CanList (s : Store) (m : Model) : Prop := ∃ rs, s.objects m = .ok rs

/-- A model can be listed just when every row of its table can be read. -/
theorem Store.canList_iff {s : Store} {m : Model} :
    s.CanList m ↔ ∀ row ∈ (s.tables.table m.typeName).values, m.CanRead row := by
  unfold CanList objects
  simp only [Table.records_eq_ok]
  generalize (s.tables.table m.typeName).values = rows
  induction rows with
  | nil => exact ⟨fun _ _ h => absurd h List.not_mem_nil, fun _ => ⟨[], .nil⟩⟩
  | cons row rest ih =>
    rw [List.forall_mem_cons, ← ih]
    constructor
    · rintro ⟨rs, hrs⟩
      obtain ⟨r, rs, hr, hrest, rfl⟩ := List.forall₂_cons_left_iff.mp hrs
      exact ⟨⟨r, hr⟩, rs, hrest⟩
    · rintro ⟨⟨r, hr⟩, rs, hrest⟩
      exact ⟨r :: rs, .cons hr hrest⟩

/-- A row that was not there before is the one that was stored. -/
theorem Access.mem_values_of_attempt {a : Access} {t t' : Table} (ht : t.Ordered)
    {reply : a.Reply} (h : a.attempt t = .ok (reply, t')) {row : Values} (hrow : row ∈ t'.values) :
    row ∈ t.values ∨ a.stored reply = some row := by
  cases a with
  | create m values =>
    obtain ⟨r, hr, h⟩ := Data.bind_eq_ok.mp h
    obtain ⟨new, hnew, h⟩ := Data.bind_eq_ok.mp h
    obtain ⟨t'', ht'', h⟩ := Data.bind_eq_ok.mp h
    cases h
    refine (Table.mem_values_insert ht'' hrow).imp_right fun he => ?_
    simp [stored, hnew, he, Except.toOption]
  | add m r =>
    obtain ⟨new, hnew, h⟩ := Data.bind_eq_ok.mp h
    obtain ⟨t'', ht'', h⟩ := Data.bind_eq_ok.mp h
    cases h
    refine (Table.mem_values_insert ht'' hrow).imp_right fun he => ?_
    simp [stored, hnew, he, Except.toOption]
  | resolve m i =>
    obtain ⟨n, hn, h⟩ := Data.bind_eq_ok.mp h
    obtain ⟨r, hr, h⟩ := Data.bind_eq_ok.mp h
    cases h
    exact .inl hrow
  | modify m i change =>
    obtain ⟨n, hn, h⟩ := Data.bind_eq_ok.mp h
    obtain ⟨old, hold, h⟩ := Data.bind_eq_ok.mp h
    obtain ⟨new, hnew, h⟩ := Data.bind_eq_ok.mp h
    obtain ⟨t'', ht'', h⟩ := Data.bind_eq_ok.mp h
    cases h
    refine (ht.mem_values_replace ht'' hrow).imp_right fun he => ?_
    simp [stored, hnew, he, Except.toOption]
  | delete m i =>
    obtain ⟨n, hn, h⟩ := Data.bind_eq_ok.mp h
    cases h
    exact .inl (Table.mem_values_remove hrow)
  | objects m =>
    obtain ⟨rs, hrs, h⟩ := Data.bind_eq_ok.mp h
    cases h
    exact .inl hrow

variable {models : Model → Prop} {m : Model}

/-- What was created can be read. -/
theorem Access.canRead_of_create (hm : m.Sound) {values : Values} (hproper : values.Proper)
    {t t' : Table} {r : Record} (h : (Access.create m values).attempt t = .ok (r, t'))
    {row : Values} (hrow : r.toValues = .ok row) : m.fromValues row = .ok r := by
  obtain ⟨r', hr', h⟩ := Data.bind_eq_ok.mp h
  obtain ⟨new, hnew, h⟩ := Data.bind_eq_ok.mp h
  obtain ⟨t'', ht'', h⟩ := Data.bind_eq_ok.mp h
  cases h
  exact Model.fromValues_toValues hm hproper hr' hrow

/-- After one operation a row of the table was there before, or can be read, or was stored
unread. -/
theorem Access.mem_values_onView (hm : m.Sound) {a : Access}
    (ha : a.Typed models) {v : View} (hv : v.Sound models) {row : Values}
    (hrow : row ∈ ((a.onView v).2 m.typeName).values) :
    row ∈ (v m.typeName).values ∨ m.CanRead row ∨ a.StoresUnread m (v m.typeName) row := by
  unfold onView at hrow
  split at hrow
  · next reply t' h =>
    by_cases hname : a.typeName = m.typeName
    · simp only [hname, Function.update_self] at h hrow
      refine (mem_values_of_attempt (hv m.typeName).ordered h hrow).imp_right fun hstored => ?_
      by_cases hcreate : ∀ values, a ≠ .create m values
      · exact .inr ⟨hname, hcreate, reply, t', h, hstored⟩
      · obtain ⟨values, rfl⟩ : ∃ values, a = .create m values := by simpa using hcreate
        obtain ⟨r, hr⟩ : ∃ r : Record, r = reply := ⟨reply, rfl⟩
        subst hr
        cases hvalues : r.toValues with
        | error e => simp [stored, hvalues, Except.toOption] at hstored
        | ok new =>
          obtain rfl : new = row := by simpa [stored, hvalues, Except.toOption] using hstored
          exact .inl ⟨r, canRead_of_create hm ha.2 h hvalues⟩
    · simp only [Function.update_of_ne (Ne.symm hname)] at hrow
      exact .inl hrow
  · exact .inl hrow

/-- After a script a row of the table was there before, or can be read, or was stored unread. -/
theorem Script.mem_values_onView {α : Type} (hmodels : ∀ m, models m → m.Sound) (hm : m.Sound) :
    ∀ (script : Script α) (v : View), script.Typed models → v.Sound models → ∀ row : Values,
      row ∈ ((script.onView v).2 m.typeName).values →
        row ∈ (v m.typeName).values ∨ m.CanRead row ∨ script.StoresUnread m v row
  | .finish _, _, _, _, _, hrow => .inl hrow
  | .call a next, v, hscript, hv, row, hrow => by
    obtain ⟨hanswers, -⟩ := Access.onView_step hmodels hscript.1 hv
    have hv' := Access.onView_sound hmodels hscript.1 hv
    rcases mem_values_onView hmodels hm (next (a.onView v).1) (a.onView v).2
      (hscript.2 _ hanswers) hv' row hrow with hrow | hread | hunread
    · exact (Access.mem_values_onView hm hscript.1 hv hrow).imp_right
        fun h => h.imp_right fun h => .inl h
    · exact .inr (.inl hread)
    · exact .inr (.inr (.inr hunread))

namespace Store

/-- After an event a row of the table was there before, or can be read, or was stored unread. -/
theorem mem_values_step (hmodels : ∀ m, models m → m.Sound) (hm : m.Sound) {s : Store}
    (hs : View.Sound models s.tables.table) {e : Event} (he : e.Typed models) {row : Values}
    (hrow : row ∈ ((s.step e).tables.table m.typeName).values) :
    row ∈ (s.tables.table m.typeName).values ∨ m.CanRead row ∨ e.StoresUnread m s row := by
  by_cases hwrite : ∀ c body, e ≠ .write c body
  · rw [tables_step s hwrite] at hrow
    exact .inl hrow
  · obtain ⟨c, body, rfl⟩ : ∃ c body, e = .write c body := by simpa using hwrite
    have hw := written hmodels hs c body
    have hrow : row ∈ ((s.write c body.run).2.tables.table m.typeName).values := hrow
    generalize s.write c body.run = result at hw hrow
    cases hw with
    | committed hc hbody hs' =>
      rw [hs'.tables] at hrow
      refine Script.mem_values_onView hmodels hm body s.tables.table he hs row ?_
      rwa [hbody]
    | failed => exact .inl hrow
    | refused => exact .inl hrow

/-- The store after each event of a history was reached by the events before it. -/
theorem typed_of_begun {done events : List Event} (h : done <+: events)
    (hevents : ∀ e ∈ events, e.Typed models) : ∀ e ∈ done, e.Typed models :=
  fun e he => hevents e (h.subset he)

/-- A row that cannot be read was stored unread by an event that it outlived. -/
theorem canRead_of_history (hmodels : ∀ m, models m → m.Sound) (hm : m.Sound) {s : Store}
    (hs : View.Sound models s.tables.table) {events : List Event}
    (hevents : ∀ e ∈ events, e.Typed models) (hfirst : s.CanList m)
    (h : ∀ done e, done ++ [e] <+: events → ∀ row, e.StoresUnread m (s.after done) row →
      row ∈ ((s.after (done ++ [e])).tables.table m.typeName).values → m.CanRead row) :
    ∀ done, done <+: events → (s.after done).CanList m := by
  intro done
  induction done using List.reverseRecOn with
  | nil => exact fun _ => hfirst
  | append_singleton done e ih =>
    intro hprefix
    have hdone : done <+: events := (List.prefix_append done [e]).trans hprefix
    have hsound := after_sound hmodels (typed_of_begun hdone hevents) hs
    have he : e.Typed models :=
      typed_of_begun hprefix hevents e (List.mem_append_right _ (List.mem_singleton_self e))
    refine canList_iff.mpr fun row hrow => ?_
    have hstep : row ∈ (((s.after done).step e).tables.table m.typeName).values := by
      rw [after_append] at hrow
      exact hrow
    rcases mem_values_step hmodels hm hsound he hstep with hbefore | hread | hunread
    · exact canList_iff.mp (ih hdone) row hbefore
    · exact hread
    · exact h done e hprefix row hunread hrow

/-- What is created can be read back as what was answered, and a failure changes nothing. -/
theorem transact_create (hm : m.Sound) (s : Store) {values : Values} (hproper : values.Proper) :
    (∀ r, (s.transact (Transact.create m values)).1 = .ok r →
      ∃ row, r.toValues = .ok row ∧ m.fromValues row = .ok r) ∧
    (∀ e, (s.transact (Transact.create m values)).1 = .error e →
      (s.transact (Transact.create m values)).2 = s) := by
  obtain ⟨t, hrun, -⟩ := outcome_perform (.create m values) s.begin
  have hrun : outcome (Transact.create m values) s.begin = _ := hrun
  rw [transact_eq, hrun]
  cases hresult : ((Access.create m values).onView s.begin.writable).1 with
  | error e => exact ⟨fun r hr => (nomatch hr), fun _ _ => rfl⟩
  | ok r =>
    refine ⟨fun r' hr' => ?_, fun e he => (nomatch he)⟩
    cases hr'
    unfold Access.onView at hresult
    split at hresult
    · next reply t' h =>
      cases hresult
      obtain ⟨r', hr', h'⟩ := Data.bind_eq_ok.mp h
      obtain ⟨row, hrow, h'⟩ := Data.bind_eq_ok.mp h'
      obtain ⟨t'', ht'', h'⟩ := Data.bind_eq_ok.mp h'
      cases h'
      exact ⟨row, hrow, Access.canRead_of_create hm hproper h hrow⟩
    · cases hresult

/-- Along a history from an empty store the records of a model can be listed in every state just
where every row that was stored unread, and outlived its commit, can be read. Creating never stores
such a row: what it returns is what its row reads back as, and where it fails nothing is stored. -/
theorem canList_throughout_iff (hm : m.Sound) (identifier : String) {events : List Event}
    (hevents : ∀ e ∈ events, e.Typed Model.Sound) :
    ((∀ done, done <+: events → (after { identifier := identifier } done).CanList m) ↔
      ∀ done e, done ++ [e] <+: events →
        ∀ row, e.StoresUnread m (after { identifier := identifier } done) row →
          row ∈ ((after { identifier := identifier } (done ++ [e])).tables.table
            m.typeName).values → m.CanRead row) ∧
    ∀ (s : Store) (values : Values), values.Proper →
      (∀ r, (s.transact (Transact.create m values)).1 = .ok r →
        ∃ row, r.toValues = .ok row ∧ m.fromValues row = .ok r) ∧
      (∀ e, (s.transact (Transact.create m values)).1 = .error e →
        (s.transact (Transact.create m values)).2 = s) := by
  refine ⟨⟨fun h done e hprefix row _ hrow => ?_, fun h => ?_⟩,
    fun s values hproper => transact_create hm s hproper⟩
  · exact canList_iff.mp (h (done ++ [e]) hprefix) row hrow
  · have hfirst : CanList { identifier := identifier } m := ⟨[], rfl⟩
    exact canRead_of_history (fun _ h => h) hm (sound_empty _ identifier) hevents hfirst h

def unreadableHistory : List Event :=
  let stored : Values := [("name", .string "n"), ("reading", .float (.ofScaled false 3 (-1)))]
  [.write (.volatile "db") (.call (.create .sensor stored) fun _ => .finish (.ok ())),
    .write (.volatile "db") (.call (.modify .sensor (.snapshot stored)
      (·.setAll [("reading", .float .nan)])) fun _ => .finish (.ok ()))]

theorem sound_sensor : Model.sensor.Sound := Model.sound_of_ofName "Sensor" rfl

theorem typed_unreadableHistory : ∀ e ∈ unreadableHistory, e.Typed Model.Sound := by
  have hreading : (⟨"reading", .f64, false, false⟩ : ModelField) ∈ Model.sensor.fields := by
    simp [Model.sensor]
  intro e he
  simp only [unreadableHistory, List.mem_cons, List.not_mem_nil, or_false] at he
  rcases he with rfl | rfl
  · exact ⟨⟨sound_sensor, by decide, trivial, rfl, trivial⟩, fun _ _ => trivial⟩
  · exact ⟨⟨sound_sensor, fun r hr => Model.admits_set sound_sensor rfl hr hreading ⟨.double, rfl⟩⟩,
      fun _ _ => trivial⟩

theorem canList_throughout_iff_unreadableHistory :
    (∀ e ∈ unreadableHistory, e.Typed Model.Sound) ∧
    ((∀ done, done <+: unreadableHistory →
        (after { identifier := "db" } done).CanList .sensor) ↔
      ∀ done e, done ++ [e] <+: unreadableHistory →
        ∀ row, e.StoresUnread .sensor (after { identifier := "db" } done) row →
          row ∈ ((after { identifier := "db" } (done ++ [e])).tables.table "Sensor").values →
            Model.sensor.CanRead row) :=
  ⟨typed_unreadableHistory, (canList_throughout_iff sound_sensor "db" typed_unreadableHistory).1⟩

/-- Changing a reading to a number that is not finite succeeds, and no sensor can be listed. -/
theorem not_canList_unreadableHistory :
    ¬ ∀ events : List Event, (∀ e ∈ events, e.Typed Model.Sound) →
      (after { identifier := "db" } events).CanList .sensor := by
  intro h
  obtain ⟨rs, hrs⟩ := h unreadableHistory typed_unreadableHistory
  have herror : (after { identifier := "db" } unreadableHistory).objects .sensor =
      .error (.serialization (.invalidType .null "f64")) := rfl
  rw [herror] at hrs
  cases hrs

end Store

end RecordStore
