import RecordStore.Proofs.Store.History

/-!
What becomes of the rows of a table. The number that the next row gets never falls, a row that was
not there before has a number that was never given out, and a row that stays keeps the text of its
primary key where all that write to the table have one key.
-/
namespace RecordStore

namespace Table

/-- A table and a version that came of it. -/
structure Descends (primaryKey? : Option String) (old t : Table) : Prop where
  nextRow_le : old.nextRow ≤ t.nextRow
  fresh : ∀ r ∈ t.rows, r.1 ∈ old.rows.map Prod.fst ∨ old.nextRow ≤ r.1
  key : ∀ field, primaryKey? = some field → ∀ n before after, (n, before) ∈ old.rows →
    (n, after) ∈ t.rows → keyText before field = keyText after field

variable {primaryKey? : Option String} {t t' : Table} {m : Model}

theorem Ordered.values_unique (h : t.Ordered) {n : Nat} {a b : Values} (ha : (n, a) ∈ t.rows)
    (hb : (n, b) ∈ t.rows) : a = b :=
  Option.some.inj ((h.row_eq_some_iff.mpr ha).symm.trans (h.row_eq_some_iff.mpr hb))

theorem Ordered.descends_of_subset (h : t.Ordered) (hrows : t'.rows ⊆ t.rows)
    (hnext : t'.nextRow = t.nextRow) : Descends primaryKey? t t' where
  nextRow_le := Nat.le_of_eq hnext.symm
  fresh := fun _ hr => .inl (List.mem_map_of_mem (hrows hr))
  key := fun field _ _ _ _ hbefore hafter =>
    congrArg (keyText · field) (h.values_unique hbefore (hrows hafter))

/-- Rows keep their keys and numbers through two steps as through one. -/
theorem Descends.trans {t'' : Table} (ht : t.Ordered) (h : Descends primaryKey? t t')
    (h' : Descends primaryKey? t' t'') : Descends primaryKey? t t'' := by
  refine ⟨Nat.le_trans h.nextRow_le h'.nextRow_le, fun r hr => ?_, ?_⟩
  · rcases h'.fresh r hr with hmem | hle
    · obtain ⟨r', hr', hid⟩ := List.mem_map.mp hmem
      rw [← hid]
      exact h.fresh r' hr'
    · exact .inr (Nat.le_trans h.nextRow_le hle)
  · intro field hfield n before after hbefore hafter
    -- a number of the first version is too small to be new in the last
    have hlt : n < t'.nextRow := Nat.lt_of_lt_of_le (ht.below _ hbefore) h.nextRow_le
    rcases h'.fresh _ hafter with hmem | hle
    · obtain ⟨r, hr, hid⟩ := List.mem_map.mp hmem
      obtain ⟨n', middle⟩ := r
      obtain rfl : n' = n := hid
      exact (h.key field hfield _ _ _ hbefore hr).trans (h'.key field hfield _ _ _ hr hafter)
    · exact absurd hle (Nat.not_le_of_lt hlt)

/-- Inserting leaves the rows that were there. -/
theorem Ordered.descends_insert (h : t.Ordered) {typeName : String} {new : Values}
    (ht' : t.insert typeName primaryKey? new = .ok t') : Descends primaryKey? t t' := by
  obtain ⟨hrows, hnext, -⟩ := insert_eq_ok ht'
  refine ⟨by omega, fun r hr => ?_, ?_⟩
  · rw [hrows] at hr
    rcases List.mem_append.mp hr with hr | hr
    · exact .inl (List.mem_map_of_mem hr)
    · rw [List.mem_singleton.mp hr]
      exact .inr (Nat.le_refl _)
  · intro field hfield n before after hbefore hafter
    rw [hrows] at hafter
    rcases List.mem_append.mp hafter with hafter | hafter
    · exact congrArg (keyText · field) (h.values_unique hbefore hafter)
    · obtain ⟨rfl, -⟩ := Prod.mk.inj (List.mem_singleton.mp hafter)
      exact absurd (h.below _ hbefore) (Nat.lt_irrefl _)

/-- Replacing a row leaves its number and its key, and the other rows as they were. -/
theorem Ordered.descends_replace (h : t.Ordered) {typeName : String} {n : Nat} {new : Values}
    (ht' : t.replace typeName primaryKey? n new = .ok t') : Descends primaryKey? t t' := by
  obtain ⟨k, old, hk, rfl, hkey⟩ := h.replace_eq_ok ht'
  have hold : (n, old) ∈ t.rows := List.mem_of_getElem? hk
  refine ⟨Nat.le_refl _, fun r hr => ?_, ?_⟩
  · rcases List.mem_or_eq_of_mem_set hr with hr | rfl
    · exact .inl (List.mem_map_of_mem hr)
    · exact .inl (List.mem_map.mpr ⟨(n, old), hold, rfl⟩)
  · intro field hfield n' before after hbefore hafter
    rcases List.mem_or_eq_of_mem_set hafter with hafter | hafter
    · exact congrArg (keyText · field) (h.values_unique hbefore hafter)
    · obtain ⟨rfl, rfl⟩ := Prod.mk.inj hafter
      rw [h.values_unique hbefore hold]
      exact hkey field hfield

/-- Whatever is called, no row changes its number or its key. -/
theorem Ordered.descends_attempt (h : t.Ordered) {c : Call} (ht' : c.attempt m t = .ok t') :
    Descends m.primaryKey? t t' := by
  cases c with
  | insert row => exact h.descends_insert ht'
  | replace n row => exact h.descends_replace ht'
  | remove n =>
    cases ht'
    obtain ⟨hrows, hnext⟩ := remove_rows t m.primaryKey? n
    exact h.descends_of_subset hrows.subset hnext

theorem Ordered.descends_self (h : t.Ordered) : Descends primaryKey? t t :=
  h.descends_of_subset (fun _ hr => hr) rfl

theorem Step.descends (h : Step m t t') (ht : t.Ordered) : Descends m.primaryKey? t t' := by
  rcases h.eq_or_attempt with rfl | ⟨c, hc⟩
  · exact ht.descends_self
  · exact ht.descends_attempt hc

end Table

variable {models : Model → Prop} {typeName : String} {primaryKey? : Option String}

/-- An operation keeps what its table descends from, for a key that all models of the table
have. -/
theorem Access.onView_descends (hmodels : ∀ m, models m → m.Sound)
    (hkey : ∀ m, models m → m.typeName = typeName →
      ∀ field, primaryKey? = some field → m.primaryKey? = some field)
    {old : Table} (hold : old.Ordered) {a : Access} (ha : a.Typed models) {v : View}
    (hv : v.Sound models) (h : old.Descends primaryKey? (v typeName)) :
    old.Descends primaryKey? ((a.onView v).2 typeName) := by
  obtain ⟨-, t, hstep, hview⟩ := onView_step hmodels ha hv
  rw [hview]
  by_cases hname : typeName = a.typeName
  · subst hname
    rw [Function.update_self]
    have hd := hstep.descends (hv a.typeName).ordered
    have hd' : (v a.typeName).Descends primaryKey? t :=
      ⟨hd.nextRow_le, hd.fresh, fun field hfield =>
        hd.key field (hkey a.model (typed_model ha) rfl field hfield)⟩
    exact h.trans hold hd'
  · rw [Function.update_of_ne hname]
    exact h

theorem Script.onView_descends {α : Type} (hmodels : ∀ m, models m → m.Sound)
    (hkey : ∀ m, models m → m.typeName = typeName →
      ∀ field, primaryKey? = some field → m.primaryKey? = some field)
    {script : Script α} (hscript : script.Typed models) {v : View} (hv : v.Sound models) :
    (v typeName).Descends primaryKey? ((script.onView v).2 typeName) :=
  (onView_invariant (P := fun v' => (v typeName).Descends primaryKey? (v' typeName)) hmodels
    (fun _ _ ha hv' h => Access.onView_descends hmodels hkey (hv typeName).ordered ha hv' h)
    script v hscript hv ((hv typeName).ordered.descends_self)).2

/-- Along a history every version of a table descends from the versions before it. -/
theorem Store.after_descends (hmodels : ∀ m, models m → m.Sound)
    (hkey : ∀ m, models m → m.typeName = typeName →
      ∀ field, primaryKey? = some field → m.primaryKey? = some field)
    {events : List Event} {s : Store} (hevents : ∀ e ∈ events, e.Typed models)
    (hs : View.Sound models s.tables.table) :
    (s.tables.table typeName).Descends primaryKey? ((s.after events).tables.table typeName) :=
  (after_invariant (P := fun v => (s.tables.table typeName).Descends primaryKey? (v typeName))
    hmodels (fun _ _ ha hv h => Access.onView_descends hmodels hkey (hs typeName).ordered ha hv h)
    events s hevents hs ((hs typeName).ordered.descends_self)).2

end RecordStore
