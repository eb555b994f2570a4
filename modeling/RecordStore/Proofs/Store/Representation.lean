import RecordStore.Proofs.Store.Lineage

/-!
Tables under any calls. Whatever is inserted, replaced and removed, and whether it succeeds or not,
the rows of a table stay in the order of their numbers, numbers are given out one after the other
and none of them twice, and the index leads from the key texts of the rows, and from no other text,
each to the row that has it. So a call is refused just where the rows do not allow it, and one that
succeeds writes one row.
-/
namespace RecordStore

namespace Table

namespace Call

/-- Whether the rows of a table allow a call. No row may have the key of a new one, and a row that
is replaced has to be there and to keep its key. -/
def Allowed (m : Model) (t : Table) : Call → Prop
  | insert row => ∀ field ∈ m.primaryKey?, ∀ r ∈ t.rows, keyText r.2 field ≠ keyText row field
  | replace n row =>
    ∃ old, (n, old) ∈ t.rows ∧ ∀ field ∈ m.primaryKey?, keyText old field = keyText row field
  | remove _ => True

def number (t : Table) : Call → Nat
  | insert _ => t.nextRow
  | replace n _ | remove n => n

def row? : Call → Option Values
  | insert row | replace _ row => some row
  | remove _ => none

/-- A call is refused where the rows do not allow it, and otherwise writes one row and no other. -/
def Lawful (m : Model) (t : Table) (c : Call) : Prop :=
  match c.attempt m t with
  | .ok t' => c.Allowed m t ∧ t'.row? = Function.update t.row? (c.number t) c.row?
  | .error _ => ¬c.Allowed m t

end Call

/-- The version of a table after a call. One that fails leaves it as it was. -/
def next (m : Model) (t : Table) (c : Call) : Table :=
  match c.attempt m t with
  | .ok t' => t'
  | .error _ => t

/-- The version of a table after some calls. -/
def run (m : Model) (t : Table) (calls : List Call) : Table := calls.foldl (next m) t

def newNumbers (old t : Table) : List Nat :=
  (t.rows.map Prod.fst).filter (· ∉ old.rows.map Prod.fst)

/-- The numbers that new rows are given by some calls, one call after the other. -/
def given (m : Model) (t : Table) : List Call → List Nat
  | [] => []
  | c :: rest => newNumbers t (t.next m c) ++ given m (t.next m c) rest

/-- A table of a model whose numbers and whose index agree with its rows. -/
structure Kept (m : Model) (t : Table) : Prop where
  ordered : t.Ordered
  indexed : t.Indexed m.primaryKey?
  row_iff : ∀ n row, t.row? n = some row ↔ (n, row) ∈ t.rows
  lookup_iff : ∀ key n, t.keys.lookup key = some n ↔
    ∃ field ∈ m.primaryKey?, ∃ row, (n, row) ∈ t.rows ∧ keyText row field = key
  locate_iff : ∀ v n, t.locate (.primaryKey v) = some n ↔
    ∃ field ∈ m.primaryKey?, ∃ row, (n, row) ∈ t.rows ∧ keyText row field = v.compact
  lawful : ∀ c : Call, c.Lawful m t

variable {m : Model} {t t' : Table} {primaryKey? : Option String} {n : Nat} {row : Values}
  {c : Call}

/-- Replacing a row is an update of the lookup by number. -/
theorem lookup_replaceRow {rows : List (Nat × Values)} {old : Values}
    (h : rows.lookup n = some old) (k : Nat) :
    (replaceRow n row rows).lookup k = if k = n then some row else rows.lookup k := by
  induction rows with
  | nil => cases h
  | cons r rest ih =>
    obtain ⟨id, values⟩ := r
    by_cases hid : id = n
    · subst hid
      rw [replaceRow, if_pos rfl, lookup_cons_ite, lookup_cons_ite]
      split <;> rfl
    · rw [lookup_cons_ite, if_neg (Ne.symm hid)] at h
      rw [replaceRow, if_neg hid, lookup_cons_ite, lookup_cons_ite, ih h]
      by_cases hk : k = id
      · simp [hk, hid]
      · simp [hk]

theorem Ordered.row_nextRow (h : t.Ordered) : t.row? t.nextRow = none := by
  cases hrow : t.row? t.nextRow with
  | none => rfl
  | some old => exact absurd (h.below _ (h.row_eq_some_iff.mp hrow)) (Nat.lt_irrefl _)

theorem Ordered.row_insert (h : t.Ordered) {typeName : String}
    (ht : t.insert typeName primaryKey? row = .ok t') :
    t'.row? = Function.update t.row? t.nextRow (some row) := by
  obtain ⟨hrows, -, -⟩ := insert_eq_ok ht
  funext k
  rw [Function.update_apply, row?, hrows, List.lookup_append]
  split
  · next hk =>
    have hnone : t.rows.lookup k = none := hk ▸ h.row_nextRow
    rw [hnone, lookup_cons_ite, if_pos hk, Option.none_or]
  · next hk => rw [lookup_cons_ite, if_neg hk, List.lookup_nil, Option.or_none, row?]

theorem row_replace {typeName : String} (ht : t.replace typeName primaryKey? n row = .ok t') :
    t'.row? = Function.update t.row? n (some row) := by
  obtain ⟨old, hold, rfl, -⟩ := replace_eq_ok ht
  funext k
  rw [Function.update_apply]
  exact lookup_replaceRow hold k

theorem row_remove (t : Table) (primaryKey? : Option String) (n : Nat) :
    (t.remove primaryKey? n).row? = Function.update t.row? n none := by
  unfold remove
  split
  · next hnone => rw [← hnone, Function.update_eq_self]
  · funext k
    rw [Function.update_apply]
    cases primaryKey? <;> exact lookup_filter t.rows k n

/-- The index leads from the key text of every row to its number, and from no other text. -/
theorem Indexed.lookup_eq_some_iff (h : t.Indexed primaryKey?) {key : String} :
    t.keys.lookup key = some n ↔
      ∃ field ∈ primaryKey?, ∃ row, (n, row) ∈ t.rows ∧ keyText row field = key := by
  cases primaryKey? with
  | none =>
    have hkeys : t.keys = [] := h
    simp [hkeys]
  | some field =>
    have hmem : t.keys.lookup key = some n ↔ (key, n) ∈ t.keys :=
      ⟨mem_of_lookup, lookup_of_mem h.2⟩
    rw [hmem, h.1, List.mem_map]
    constructor
    · rintro ⟨r, hr, he⟩
      cases he
      exact ⟨field, rfl, r.2, hr, rfl⟩
    · rintro ⟨f, hf, row, hrow, rfl⟩
      obtain rfl : field = f := Option.some.inj hf
      exact ⟨(n, row), hrow, rfl⟩

theorem lookup_of_insert {typeName : String} (h : t.insert typeName primaryKey? row = .ok t')
    {field : String} (hfield : field ∈ primaryKey?) :
    t.keys.lookup (keyText row field) = none := by
  obtain rfl := hfield
  exact (insert_eq_ok h).2.2.1

/-- Inserting fails only where the index has the key. -/
theorem insert_eq_error {typeName : String} {e : StoreError}
    (h : t.insert typeName primaryKey? row = .error e) :
    ∃ field ∈ primaryKey?, ∃ n, t.keys.lookup (keyText row field) = some n := by
  cases primaryKey? with
  | none => cases h
  | some field =>
    simp only [insert] at h
    split at h
    · next hkey => exact ⟨field, rfl, Option.isSome_iff_exists.mp hkey⟩
    · cases h

/-- Replacing a row fails only where its key would change. -/
theorem replace_eq_error {typeName : String} {e : StoreError}
    (h : t.replace typeName primaryKey? n row = .error e) :
    ∀ old, t.row? n = some old →
      ∃ field ∈ primaryKey?, keyText old field ≠ keyText row field := by
  intro old hold
  simp only [replace, hold] at h
  cases primaryKey? with
  | none => cases h
  | some field =>
    simp only at h
    split at h
    · cases h
    · next hkey => exact ⟨field, rfl, hkey⟩

/-- An insertion is refused just where the index has its key, that is, where a row has it. -/
theorem lawful_insert (ht : t.Ordered) (hi : t.Indexed m.primaryKey?) (row : Values) :
    (Call.insert row).Lawful m t := by
  unfold Call.Lawful
  split
  · next t' hattempt =>
    refine ⟨fun field hfield r hr hkey => ?_, ht.row_insert hattempt⟩
    have hfound : t.keys.lookup (keyText row field) = some r.1 :=
      hi.lookup_eq_some_iff.mpr ⟨field, hfield, r.2, hr, hkey⟩
    rw [lookup_of_insert hattempt hfield] at hfound
    cases hfound
  · next e hattempt =>
    intro hallowed
    obtain ⟨field, hfield, n, hfound⟩ := insert_eq_error hattempt
    obtain ⟨f, hf, old, hold, hkey⟩ := hi.lookup_eq_some_iff.mp hfound
    obtain rfl : f = field := Option.mem_unique hf hfield
    exact hallowed f hf _ hold hkey

theorem lawful_replace (ht : t.Ordered) (n : Nat) (row : Values) :
    (Call.replace n row).Lawful m t := by
  unfold Call.Lawful
  split
  · next t' hattempt =>
    obtain ⟨old, hold, -, hkey⟩ := replace_eq_ok hattempt
    exact ⟨⟨old, ht.row_eq_some_iff.mp hold, hkey⟩, row_replace hattempt⟩
  · next e hattempt =>
    rintro ⟨old, hold, hsame⟩
    obtain ⟨field, hfield, hkey⟩ := replace_eq_error hattempt old (ht.row_eq_some_iff.mpr hold)
    exact hkey (hsame field hfield)

theorem lawful_remove (t : Table) (n : Nat) : (Call.remove n).Lawful m t :=
  ⟨trivial, row_remove t m.primaryKey? n⟩

/-- A table in order whose index is that of its rows has all that calls keep. -/
theorem kept_of_indexed (ht : t.Ordered) (hi : t.Indexed m.primaryKey?) : t.Kept m where
  ordered := ht
  indexed := hi
  row_iff := fun _ _ => ht.row_eq_some_iff
  lookup_iff := fun _ _ => hi.lookup_eq_some_iff
  locate_iff := fun _ _ => hi.lookup_eq_some_iff
  lawful := fun c => by
    cases c with
    | insert row => exact lawful_insert ht hi row
    | replace n row => exact lawful_replace ht n row
    | remove n => exact lawful_remove t n

/-- What holds of a table and of all that calls can make of it holds of the next version. -/
theorem next_of_attempt {P : Table → Prop} (h : P t) (hc : ∀ t', c.attempt m t = .ok t' → P t') :
    P (t.next m c) := by
  unfold next
  split
  · next t' ht' => exact hc t' ht'
  · exact h

theorem Ordered.next (h : t.Ordered) (c : Call) : (t.next m c).Ordered :=
  next_of_attempt h fun _ ht => h.attempt ht

theorem Indexed.next (hi : t.Indexed m.primaryKey?) (h : t.Ordered) (c : Call) :
    (t.next m c).Indexed m.primaryKey? :=
  next_of_attempt hi fun _ ht => hi.attempt h ht

theorem Ordered.descends_next (h : t.Ordered) (c : Call) :
    t.Descends m.primaryKey? (t.next m c) :=
  next_of_attempt h.descends_self fun _ ht => h.descends_attempt ht

theorem Kept.run (h : t.Kept m) (calls : List Call) : (t.run m calls).Kept m := by
  induction calls generalizing t with
  | nil => exact h
  | cons c rest ih => exact ih (kept_of_indexed (h.ordered.next c) (h.indexed.next h.ordered c))

theorem Ordered.descends_run (h : t.Ordered) (calls : List Call) :
    t.Descends m.primaryKey? (t.run m calls) := by
  induction calls generalizing t with
  | nil => exact h.descends_self
  | cons c rest ih => exact (h.descends_next c).trans h (ih (h.next c))

theorem run_append (t : Table) (calls more : List Call) :
    t.run m (calls ++ more) = (t.run m calls).run m more := List.foldl_append

theorem newNumbers_eq_nil (h : ∀ r ∈ t'.rows, r.1 ∈ t.rows.map Prod.fst) :
    newNumbers t t' = [] := by
  refine List.filter_eq_nil_iff.mpr fun n hn => ?_
  obtain ⟨r, hr, rfl⟩ := List.mem_map.mp hn
  simpa using h r hr

theorem Ordered.newNumbers_insert (h : t.Ordered) {typeName : String}
    (ht : t.insert typeName primaryKey? row = .ok t') : newNumbers t t' = [t.nextRow] := by
  obtain ⟨hrows, -, -⟩ := insert_eq_ok ht
  have hnew : t.nextRow ∉ t.rows.map Prod.fst := by
    intro hmem
    obtain ⟨r, hr, hid⟩ := List.mem_map.mp hmem
    exact absurd (h.below r hr) (by omega)
  have hold : newNumbers t t = [] := newNumbers_eq_nil fun r hr => List.mem_map_of_mem hr
  rw [newNumbers, hrows, List.map_append, List.filter_append, ← newNumbers, hold]
  simpa using hnew

/-- A call gives a new row the number that the table has ready, and other calls give none. -/
theorem Ordered.range_next (h : t.Ordered) (c : Call) :
    List.range t.nextRow ++ newNumbers t (t.next m c) = List.range (t.next m c).nextRow := by
  refine next_of_attempt (P := fun t' =>
    List.range t.nextRow ++ newNumbers t t' = List.range t'.nextRow) ?_ fun t' ht => ?_
  · rw [newNumbers_eq_nil fun r hr => List.mem_map_of_mem hr, List.append_nil]
  · cases c with
    | insert row => rw [h.newNumbers_insert ht, (insert_eq_ok ht).2.1, List.range_succ]
    | replace n row =>
      obtain ⟨k, old, hk, rfl, -⟩ := h.replace_eq_ok ht
      rw [newNumbers_eq_nil fun r hr => ?_, List.append_nil]
      rcases List.mem_or_eq_of_mem_set hr with hr | rfl
      · exact List.mem_map_of_mem hr
      · exact List.mem_map.mpr ⟨(n, old), List.mem_of_getElem? hk, rfl⟩
    | remove n =>
      cases ht
      obtain ⟨hrows, hnext⟩ := remove_rows t m.primaryKey? n
      rw [newNumbers_eq_nil fun r hr => List.mem_map_of_mem (hrows.subset hr), hnext,
        List.append_nil]

theorem Ordered.range_run (h : t.Ordered) (calls : List Call) :
    List.range t.nextRow ++ given m t calls = List.range (t.run m calls).nextRow := by
  induction calls generalizing t with
  | nil => exact List.append_nil _
  | cons c rest ih =>
    rw [given, ← List.append_assoc, h.range_next c]
    exact ih (h.next c)

/-- Every version of a table that calls make of an empty one is kept, later versions descend from
it, and its rows were given the numbers below the next one, each once and in order. -/
theorem kept_throughout (m : Model) (calls : List Call) :
    (run m {} calls).Kept m ∧
      (∀ more, (run m {} calls).Descends m.primaryKey? (run m {} (calls ++ more))) ∧
      given m {} calls = List.range (run m {} calls).nextRow := by
  have hkept : (run m {} calls).Kept m :=
    (kept_of_indexed ordered_empty indexed_empty).run calls
  refine ⟨hkept, fun more => ?_, ?_⟩
  · rw [run_append]
    exact hkept.ordered.descends_run more
  · exact ordered_empty.range_run calls

/-- A key that is taken is refused. Once its row is removed it is free, and the new row has a number
of its own. -/
example : run .account {} [.insert [("id", .string "x")], .insert [("id", .string "x")], .remove 0,
    .insert [("id", .string "x")]] = ⟨[(1, [("id", .string "x")])], [("\"x\"", 1)], 2⟩ := rfl

end Table

/-- A table of a store is kept along every history in which the models that have its type name have
one primary key. -/
theorem Store.kept_after {models : Model → Prop} (hmodels : ∀ m, models m → m.Sound) {m : Model}
    (hkey : ∀ m', models m' → m'.typeName = m.typeName → m'.primaryKey? = m.primaryKey?)
    (identifier : String) {events : List Event} (hevents : ∀ e ∈ events, e.Typed models) :
    ((after { identifier := identifier } events).tables.table m.typeName).Kept m := by
  have hsound := after_sound hmodels hevents (sound_empty models identifier)
  have hindexed := after_indexed hmodels hkey hevents (sound_empty models identifier)
    Table.indexed_empty
  exact Table.kept_of_indexed (hsound m.typeName).ordered hindexed

end RecordStore
