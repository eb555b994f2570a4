import RecordStore.Proofs.Store.Script

/-!
What typed scripts keep. A script is typed where it stores only records of its models, given that
what it was answered are such records. Then every table keeps its rows in order, each of them stored
for a model of its type name, and where the models of a type name have one primary key, its table
keeps its index.
-/
namespace RecordStore

/-- An operation on one of some models whose arguments are values that text can express and records
of the model. -/
def Access.Typed (models : Model → Prop) : Access → Prop
  | .create m values => models m ∧ values.Proper
  | .add m r => models m ∧ m.Admits r
  | .modify m _ change => models m ∧ ∀ r, m.Admits r → m.Admits (change r)
  | .resolve m _ | .delete m _ | .objects m => models m

def Access.Answers : (a : Access) → Except StoreError a.Reply → Prop
  | .create m _, .ok r | .resolve m _, .ok r | .modify m _ _, .ok r => m.Admits r
  | .objects m, .ok rs => ∀ r ∈ rs, m.Admits r
  | _, _ => True

/-- A script whose operations are typed whatever they are answered. -/
def Script.Typed {α : Type} (models : Model → Prop) : Script α → Prop
  | .finish _ => True
  | .call a next => a.Typed models ∧ ∀ outcome, a.Answers outcome → (next outcome).Typed models

namespace Table

/-- What an operation on a model makes of its table where it succeeds. -/
inductive Step (m : Model) (t : Table) : Table → Prop
  | same : Step m t t
  | insert {row : Values} {t' : Table} (hrow : m.Stores row)
      (ht : t.insert m.typeName m.primaryKey? row = .ok t') : Step m t t'
  | replace {n : Nat} {r : Record} {row : Values} {t' : Table} (hread : t.read m n = .ok r)
      (hrow : m.Stores row) (ht : t.replace m.typeName m.primaryKey? n row = .ok t') : Step m t t'
  | remove (n : Nat) : Step m t (t.remove m.primaryKey? n)

/-- A table whose rows are in order and stored for models of its type name. -/
structure Sound (models : Model → Prop) (typeName : String) (t : Table) : Prop where
  ordered : t.Ordered
  stored : ∀ row ∈ t.values, ∃ m, models m ∧ m.typeName = typeName ∧ m.Stores row

theorem sound_empty (models : Model → Prop) (typeName : String) : Sound models typeName {} :=
  ⟨ordered_empty, fun _ h => absurd h List.not_mem_nil⟩

variable {m : Model} {t t' : Table}

/-- A step is a call that succeeds, if anything changes. -/
theorem Step.eq_or_attempt (h : Step m t t') : t' = t ∨ ∃ c : Call, c.attempt m t = .ok t' := by
  cases h with
  | same => exact .inl rfl
  | @insert row _ _ hinsert => exact .inr ⟨.insert row, hinsert⟩
  | @replace n _ row _ _ _ hreplace => exact .inr ⟨.replace n row, hreplace⟩
  | remove n => exact .inr ⟨.remove n, rfl⟩

theorem Step.ordered (h : Step m t t') (ht : t.Ordered) : t'.Ordered := by
  rcases h.eq_or_attempt with rfl | ⟨c, hc⟩
  · exact ht
  · exact ht.attempt hc

theorem Step.indexed (h : Step m t t') (ht : t.Ordered) (hi : t.Indexed m.primaryKey?) :
    t'.Indexed m.primaryKey? := by
  rcases h.eq_or_attempt with rfl | ⟨c, hc⟩
  · exact hi
  · exact hi.attempt ht hc

/-- Rows of the new table are rows of the old one or were written. -/
theorem Step.mem_values (h : Step m t t') (ht : t.Ordered) {row : Values}
    (hrow : row ∈ t'.values) : row ∈ t.values ∨ m.Stores row := by
  cases h with
  | same => exact .inl hrow
  | insert hnew hinsert =>
    rcases mem_values_insert hinsert hrow with hrow | rfl
    · exact .inl hrow
    · exact .inr hnew
  | replace _ hnew hreplace =>
    rcases ht.mem_values_replace hreplace hrow with hrow | rfl
    · exact .inl hrow
    · exact .inr hnew
  | remove n => exact .inl (mem_values_remove hrow)

theorem Step.sound {models : Model → Prop} (h : Step m t t') (hm : models m)
    (ht : t.Sound models m.typeName) : t'.Sound models m.typeName := by
  refine ⟨h.ordered ht.ordered, fun row hrow => ?_⟩
  rcases h.mem_values ht.ordered hrow with hrow | hrow
  · exact ht.stored row hrow
  · exact ⟨m, hm, rfl, hrow⟩

theorem Sound.proper {models : Model → Prop} (hmodels : ∀ m, models m → m.Sound)
    {typeName : String} (h : t.Sound models typeName) {row : Values} (hrow : row ∈ t.values) :
    row.Proper := by
  obtain ⟨m, hm, -, hstored⟩ := h.stored row hrow
  exact Model.proper_of_stores (hmodels m hm) hstored

/-- Mapping succeeds with the results of its items one by one. -/
theorem mapM_eq_ok {ε α β : Type} {f : α → Except ε β} {as : List α} {bs : List β} :
    as.mapM f = .ok bs ↔ List.Forall₂ (fun a b => f a = .ok b) as bs := by
  induction as generalizing bs with
  | nil =>
    rw [List.mapM_nil, List.forall₂_nil_left_iff]
    exact ⟨fun h => (Except.ok.inj h).symm, fun h => congrArg _ h.symm⟩
  | cons a as ih =>
    rw [List.mapM_cons, List.forall₂_cons_left_iff]
    constructor
    · intro h
      obtain ⟨b, hb, h⟩ := Data.bind_eq_ok.mp h
      obtain ⟨rest, hrest, h⟩ := Data.bind_eq_ok.mp h
      cases h
      exact ⟨b, rest, hb, ih.mp hrest, rfl⟩
    · rintro ⟨b, rest, hb, hrest, rfl⟩
      rw [hb, ok_bind, ih.mpr hrest]
      rfl

theorem records_eq_ok {rs : List Record} :
    t.records m = .ok rs ↔ List.Forall₂ (fun row r => m.fromValues row = .ok r) t.values rs := by
  rw [records, mapM_eq_ok, values, List.forall₂_map_left_iff]

end Table

variable {models : Model → Prop}

/-- What is read from a row is a record of the model. -/
theorem Table.admits_of_read (hmodels : ∀ m, models m → m.Sound) {m : Model} (hm : models m)
    {t : Table} (ht : t.Sound models m.typeName) {n : Nat} {r : Record} (h : t.read m n = .ok r) :
    m.Admits r := by
  unfold Table.read at h
  split at h
  · next row hrow =>
    have hmem : row ∈ t.values := List.mem_map_of_mem (mem_of_lookup hrow)
    exact (Model.admits_of_fromValues (hmodels m hm) (ht.proper hmodels hmem) h).1
  · cases h

/-- A typed operation that succeeds answers records of its model and makes one step. -/
theorem Access.attempt_step (hmodels : ∀ m, models m → m.Sound) {a : Access}
    (ha : a.Typed models) {t t' : Table} (ht : t.Sound models a.typeName) {reply : a.Reply}
    (h : a.attempt t = .ok (reply, t')) : a.Answers (.ok reply) ∧ Table.Step a.model t t' := by
  cases a with
  | create m values =>
    obtain ⟨hm, hproper⟩ := ha
    obtain ⟨r, hr, h⟩ := Data.bind_eq_ok.mp h
    obtain ⟨row, hrow, h⟩ := Data.bind_eq_ok.mp h
    obtain ⟨t'', ht'', h⟩ := Data.bind_eq_ok.mp h
    cases h
    have hadmits := (Model.admits_of_fromValues (hmodels m hm) hproper hr).1
    exact ⟨hadmits, .insert ⟨reply, hadmits, hrow⟩ ht''⟩
  | add m r =>
    obtain ⟨row, hrow, h⟩ := Data.bind_eq_ok.mp h
    obtain ⟨t'', ht'', h⟩ := Data.bind_eq_ok.mp h
    cases h
    exact ⟨trivial, .insert ⟨r, ha.2, hrow⟩ ht''⟩
  | resolve m i =>
    obtain ⟨n, hn, h⟩ := Data.bind_eq_ok.mp h
    obtain ⟨r, hr, h⟩ := Data.bind_eq_ok.mp h
    cases h
    exact ⟨Table.admits_of_read hmodels ha ht hr, .same⟩
  | modify m i change =>
    obtain ⟨n, hn, h⟩ := Data.bind_eq_ok.mp h
    obtain ⟨old, hold, h⟩ := Data.bind_eq_ok.mp h
    obtain ⟨row, hrow, h⟩ := Data.bind_eq_ok.mp h
    obtain ⟨t'', ht'', h⟩ := Data.bind_eq_ok.mp h
    cases h
    have hadmits := ha.2 old (Table.admits_of_read hmodels ha.1 ht hold)
    exact ⟨hadmits, .replace hold ⟨_, hadmits, hrow⟩ ht''⟩
  | delete m i =>
    obtain ⟨n, hn, h⟩ := Data.bind_eq_ok.mp h
    cases h
    exact ⟨trivial, .remove n⟩
  | objects m =>
    obtain ⟨rs, hrs, h⟩ := Data.bind_eq_ok.mp h
    cases h
    refine ⟨fun r hr => ?_, .same⟩
    obtain ⟨row, hrow, hread⟩ := exists_of_forall₂ (Table.records_eq_ok.mp hrs) hr
    exact (Model.admits_of_fromValues (hmodels m ha) (ht.proper hmodels hrow) hread).1

/-- Tables of which each is sound. -/
def View.Sound (models : Model → Prop) (v : View) : Prop :=
  ∀ typeName, (v typeName).Sound models typeName

theorem Access.typed_model {a : Access} (ha : a.Typed models) : models a.model := by
  cases a with
  | create => exact ha.1
  | add => exact ha.1
  | modify => exact ha.1
  | resolve => exact ha
  | delete => exact ha
  | objects => exact ha

/-- After a typed operation one table has made a step and the others are as they were. -/
theorem Access.onView_step (hmodels : ∀ m, models m → m.Sound) {a : Access}
    (ha : a.Typed models) {v : View} (hv : v.Sound models) :
    a.Answers (a.onView v).1 ∧ ∃ t, Table.Step a.model (v a.typeName) t ∧
      (a.onView v).2 = Function.update v a.typeName t := by
  unfold Access.onView
  split
  · next reply t h =>
    obtain ⟨hanswers, hstep⟩ := attempt_step hmodels ha (hv a.typeName) h
    exact ⟨hanswers, t, hstep, rfl⟩
  · next e h =>
    refine ⟨?_, v a.typeName, .same, (Function.update_eq_self ..).symm⟩
    cases a <;> trivial

/-- An operation keeps tables whose rows are those of their models. -/
theorem Access.onView_sound (hmodels : ∀ m, models m → m.Sound) {a : Access}
    (ha : a.Typed models) {v : View} (hv : v.Sound models) : (a.onView v).2.Sound models := by
  obtain ⟨-, t, hstep, hview⟩ := onView_step hmodels ha hv
  intro name
  rw [hview]
  by_cases h : name = a.typeName
  · subst h
    rw [Function.update_self]
    exact hstep.sound (typed_model ha) (hv a.typeName)
  · rw [Function.update_of_ne h]
    exact hv name

/-- A table keeps its index where the models of its type name have one primary key. -/
theorem Access.onView_indexed (hmodels : ∀ m, models m → m.Sound) {typeName : String}
    {primaryKey? : Option String}
    (hkey : ∀ m, models m → m.typeName = typeName → m.primaryKey? = primaryKey?)
    {a : Access} (ha : a.Typed models) {v : View} (hv : v.Sound models)
    (hi : (v typeName).Indexed primaryKey?) : ((a.onView v).2 typeName).Indexed primaryKey? := by
  obtain ⟨-, t, hstep, hview⟩ := onView_step hmodels ha hv
  rw [hview]
  by_cases h : typeName = a.typeName
  · subst h
    rw [Function.update_self]
    have hsame := hkey a.model (typed_model ha) rfl
    rw [← hsame] at hi ⊢
    exact hstep.indexed (hv a.typeName).ordered hi
  · rw [Function.update_of_ne h]
    exact hi

variable {α : Type}

/-- What typed operations keep, typed scripts keep. -/
theorem Script.onView_invariant {P : View → Prop} (hmodels : ∀ m, models m → m.Sound)
    (hP : ∀ (a : Access) (v : View), a.Typed models → v.Sound models → P v → P (a.onView v).2) :
    ∀ (script : Script α) (v : View), script.Typed models → v.Sound models → P v →
      (script.onView v).2.Sound models ∧ P (script.onView v).2
  | .finish _, _, _, hv, hp => ⟨hv, hp⟩
  | .call a next, v, hscript, hv, hp => by
    obtain ⟨hanswers, -⟩ := Access.onView_step hmodels hscript.1 hv
    exact onView_invariant hmodels hP (next (a.onView v).1) (a.onView v).2
      (hscript.2 _ hanswers) (Access.onView_sound hmodels hscript.1 hv) (hP a v hscript.1 hv hp)

end RecordStore
