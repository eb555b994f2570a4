import RecordStore.Proofs.Model.Records
import RecordStore.Store.Table
import Mathlib.Data.List.InsertIdx
import Mathlib.Data.List.Sort

/-!
The rows of a table and its index. Row numbers increase and are not used again, so the row that an
identity finds is the first one that it selects, and replacing or removing it is done at its
position. Two versions of a table differ nowhere just where they have the same rows with equal
values.
-/
namespace RecordStore

def Identity.selects (i : Identity) (primaryKey? : Option String) (row : Values) : Bool :=
  match i with
  | .primaryKey v =>
    match primaryKey? with
    | some field => Table.keyText row field == v.compact
    | none => false
  | .snapshot values => Values.same row values

/-- Whether a row stores the counterpart of a record with given values: one with the text of its
primary key, or one with equal values where there is no key. -/
def Model.isCounterpart (m : Model) (values row : Values) : Bool :=
  match m.primaryKey? with
  | some field => Table.keyText row field == Table.keyText values field
  | none => Values.same row values

/-- Rows are selected as counterparts of the record that an identity is of. -/
theorem Model.selects_identity {m : Model} {r : Record} {i : Identity} (h : m.identity r = .ok i) :
    ∃ values, r.toValues = .ok values ∧ i.selects m.primaryKey? = m.isCounterpart values := by
  unfold Model.identity at h
  split at h
  · cases h
  · next values hvalues =>
    refine ⟨values, hvalues, ?_⟩
    funext row
    unfold Model.isCounterpart
    cases hkey : m.primaryKey? <;> rw [hkey] at h <;> cases h <;> rfl

namespace Table

/-- Rows are numbered in order, below the number that the next one gets. -/
structure Ordered (t : Table) : Prop where
  increasing : t.rows.Pairwise fun a b => a.1 < b.1
  below : ∀ r ∈ t.rows, r.1 < t.nextRow

def Indexed (t : Table) : Option String → Prop
  | none => t.keys = []
  | some field =>
    t.keys = t.rows.map (fun r => (keyText r.2 field, r.1)) ∧ (t.keys.map Prod.fst).Nodup

def SameRows (old t : Table) : Prop :=
  List.Forall₂ (fun a b => a.1 = b.1 ∧ Values.same a.2 b.2 = true) old.rows t.rows

instance (old t : Table) : Decidable (SameRows old t) := by
  unfold SameRows
  infer_instance

variable {t : Table} {n k : Nat} {old new : Values} {primaryKey? : Option String}

theorem ordered_empty : Ordered {} := ⟨.nil, fun _ h => absurd h List.not_mem_nil⟩

theorem indexed_empty : Indexed {} primaryKey? := by
  cases primaryKey? with
  | none => rfl
  | some field => exact ⟨rfl, .nil⟩

theorem Ordered.ids_nodup (h : t.Ordered) : (t.rows.map Prod.fst).Nodup :=
  List.pairwise_map.mpr (h.increasing.imp fun hlt => Nat.ne_of_lt hlt)

theorem Ordered.row_eq_some_iff (h : t.Ordered) : t.row? n = some old ↔ (n, old) ∈ t.rows :=
  ⟨mem_of_lookup, lookup_of_mem h.ids_nodup⟩

theorem Ordered.row_of_getElem (h : t.Ordered) (hk : t.rows[k]? = some (n, old)) :
    t.row? n = some old :=
  h.row_eq_some_iff.mpr (List.mem_of_getElem? hk)

/-- A row number is at one position. -/
theorem Ordered.position_unique (h : t.Ordered) {j : Nat} (hk : t.rows[k]? = some (n, old))
    (hj : t.rows[j]? = some (n, new)) : k = j := by
  have hlt : k < (t.rows.map Prod.fst).length := by
    simpa using (List.getElem?_eq_some_iff.mp hk).1
  refine (List.getElem?_inj hlt h.ids_nodup).mp ?_
  rw [List.getElem?_map, List.getElem?_map, hk, hj]
  rfl

theorem set_of_getElem {α : Type} {items : List α} {a : α} (h : items[k]? = some a) :
    items.set k a = items := by
  obtain ⟨hlt, rfl⟩ := List.getElem?_eq_some_iff.mp h
  exact List.set_getElem_self ..

/-- Where the numbers of rows differ, a row is replaced in its place. -/
theorem replaceRow_eq_set {rows : List (Nat × Values)} (hids : (rows.map Prod.fst).Nodup)
    (hk : rows[k]? = some (n, old)) : replaceRow n new rows = rows.set k (n, new) := by
  induction rows generalizing k with
  | nil => simp at hk
  | cons r rest ih =>
    obtain ⟨hnot, hrest⟩ := List.nodup_cons.mp hids
    cases k with
    | zero =>
      obtain rfl : r = (n, old) := by simpa using hk
      simp [replaceRow]
    | succ k =>
      have hk' : rest[k]? = some (n, old) := by simpa using hk
      have hne : r.1 ≠ n := fun he =>
        hnot (List.mem_map.mpr ⟨(n, old), List.mem_of_getElem? hk', he.symm⟩)
      obtain ⟨m, v⟩ := r
      simp only [replaceRow, if_neg hne, List.set_cons_succ, ih hrest hk']

/-- Where keys differ, filtering out one of them takes away one item. -/
theorem filter_eq_eraseIdx {α β : Type} [BEq β] [LawfulBEq β] {key : α → β} {rows : List α} {r : α}
    (hids : (rows.map key).Nodup) (hk : rows[k]? = some r) :
    rows.filter (fun s => key s != key r) = rows.eraseIdx k := by
  induction rows generalizing k with
  | nil => simp at hk
  | cons s rest ih =>
    obtain ⟨hnot, hrest⟩ := List.nodup_cons.mp hids
    cases k with
    | zero =>
      obtain rfl : s = r := by simpa using hk
      have hall : ∀ a ∈ rest, key a ≠ key s := fun a ha he => hnot (he ▸ List.mem_map_of_mem ha)
      simpa [List.filter_cons] using hall
    | succ k =>
      have hk' : rest[k]? = some r := by simpa using hk
      have hne : key s ≠ key r := fun he =>
        hnot (he ▸ List.mem_map_of_mem (List.mem_of_getElem? hk'))
      simp [hne, ih hrest hk']

/-- The stored values of the rows in order. -/
def values (t : Table) : List Values := t.rows.map Prod.snd

def position? (t : Table) (primaryKey? : Option String) (i : Identity) : Option Nat :=
  t.values.findIdx? (i.selects primaryKey?)

/-- Looking up a key in an index made of the rows finds the first row with that key. -/
theorem lookup_map_keyText (rows : List (Nat × Values)) (field key : String) :
    (rows.map fun r => (keyText r.2 field, r.1)).lookup key =
      (rows.find? fun r => keyText r.2 field == key).map Prod.fst := by
  induction rows with
  | nil => rfl
  | cons r rest ih =>
    rw [List.map_cons, List.lookup_cons, List.find?_cons, ih]
    by_cases h : keyText r.2 field = key
    · subst h
      simp
    · rw [beq_false_of_ne h, beq_false_of_ne (Ne.symm h)]

theorem map_find_selects (t : Table) (primaryKey? : Option String) (i : Identity) :
    (t.rows.find? fun r => i.selects primaryKey? r.2).map Prod.fst =
      (t.position? primaryKey? i).bind fun k => (t.rows[k]?).map Prod.fst := by
  rw [List.find?_eq_bind_findIdx?_getElem?, position?, values, List.findIdx?_map, Option.map_bind]
  rfl

/-- The row found by an identity is the first one that it selects. -/
theorem Indexed.locate_eq (h : t.Indexed primaryKey?) (i : Identity) :
    t.locate i = (t.position? primaryKey? i).bind fun k => (t.rows[k]?).map Prod.fst := by
  rw [← map_find_selects]
  cases i with
  | snapshot values => rfl
  | primaryKey v =>
    cases primaryKey? with
    | none =>
      have hkeys : t.keys = [] := h
      have hnone : t.rows.find? (fun _ => false) = none := by simp
      simp only [locate, hkeys, List.lookup_nil, Identity.selects, hnone, Option.map_none]
    | some field =>
      simp only [locate, Identity.selects, h.1, lookup_map_keyText]

/-- A row that is found by its values, or in an index that is in order, is at the position of the
identity. -/
theorem locate_eq_some {i : Identity} (h : (∃ values, i = .snapshot values) ∨ t.Indexed primaryKey?)
    (hn : t.locate i = some n) :
    ∃ k old, t.position? primaryKey? i = some k ∧ t.rows[k]? = some (n, old) := by
  have hlocate : t.locate i =
      (t.position? primaryKey? i).bind fun k => (t.rows[k]?).map Prod.fst := by
    rcases h with ⟨values, rfl⟩ | h
    · exact map_find_selects t primaryKey? (.snapshot values)
    · exact h.locate_eq i
  rw [hlocate] at hn
  obtain ⟨k, hk, hrow⟩ := Option.bind_eq_some_iff.mp hn
  obtain ⟨r, hr, rfl⟩ := Option.map_eq_some_iff.mp hrow
  exact ⟨k, r.2, hk, hr⟩

/-- What a successful insertion makes of a table. -/
theorem insert_eq_ok {typeName : String} {t' : Table}
    (h : t.insert typeName primaryKey? new = .ok t') :
    t'.rows = t.rows ++ [(t.nextRow, new)] ∧ t'.nextRow = t.nextRow + 1 ∧
      match primaryKey? with
      | none => t'.keys = t.keys
      | some field =>
        t.keys.lookup (keyText new field) = none ∧
          t'.keys = t.keys ++ [(keyText new field, t.nextRow)] := by
  cases primaryKey? with
  | none =>
    cases h
    exact ⟨rfl, rfl, rfl⟩
  | some field =>
    simp only [insert] at h
    split at h
    · cases h
    · next hkey =>
      cases h
      exact ⟨rfl, rfl, Option.not_isSome_iff_eq_none.mp hkey, rfl⟩

/-- The number of a new row is above all others. -/
theorem Ordered.insert (h : t.Ordered) {typeName : String} {t' : Table}
    (ht : t.insert typeName primaryKey? new = .ok t') : t'.Ordered := by
  obtain ⟨hrows, hnext, -⟩ := insert_eq_ok ht
  constructor
  · rw [hrows]
    refine List.pairwise_append.mpr ⟨h.increasing, List.pairwise_singleton _ _, ?_⟩
    intro a ha b hb
    rw [List.mem_singleton.mp hb]
    exact h.below a ha
  · intro r hr
    rw [hrows] at hr
    rw [hnext]
    rcases List.mem_append.mp hr with hr | hr
    · exact Nat.lt_succ_of_lt (h.below r hr)
    · rw [List.mem_singleton.mp hr]
      exact Nat.lt_succ_self _

/-- The index gets the key of the new row, which it did not have. -/
theorem Indexed.insert (h : t.Indexed primaryKey?) {typeName : String} {t' : Table}
    (ht : t.insert typeName primaryKey? new = .ok t') : t'.Indexed primaryKey? := by
  obtain ⟨hrows, -, hkeys⟩ := insert_eq_ok ht
  cases primaryKey? with
  | none => exact hkeys.trans h
  | some field =>
    obtain ⟨hnew, hkeys⟩ := hkeys
    constructor
    · rw [hkeys, hrows, h.1, List.map_append]
      rfl
    · rw [hkeys, List.map_append]
      refine List.nodup_append.mpr ⟨h.2, List.nodup_singleton _, ?_⟩
      rintro a ha b hb rfl
      obtain rfl : a = keyText new field := by simpa using hb
      obtain ⟨e, he, hea⟩ := List.mem_map.mp ha
      have hlookup := List.lookup_eq_none_iff.mp hnew e he
      simp [hea] at hlookup

/-- What a successful replacement makes of a table. -/
theorem replace_eq_ok {typeName : String} {t' : Table}
    (h : t.replace typeName primaryKey? n new = .ok t') :
    ∃ old, t.row? n = some old ∧ t' = { t with rows := replaceRow n new t.rows } ∧
      ∀ field, primaryKey? = some field → keyText old field = keyText new field := by
  unfold replace at h
  split at h
  · cases h
  · next old hold =>
    cases primaryKey? with
    | none =>
      cases h
      exact ⟨old, hold, rfl, fun _ hf => by cases hf⟩
    | some field =>
      simp only at h
      split at h
      · next hkey =>
        cases h
        refine ⟨old, hold, rfl, fun f hf => ?_⟩
        cases hf
        exact hkey
      · cases h

theorem Ordered.set (h : t.Ordered) (hk : t.rows[k]? = some (n, old)) :
    Ordered { t with rows := t.rows.set k (n, new) } := by
  have hids : (t.rows.set k (n, new)).map Prod.fst = t.rows.map Prod.fst := by
    rw [List.map_set]
    refine set_of_getElem ?_
    simp [List.getElem?_map, hk]
  constructor
  · have hinc : (t.rows.map Prod.fst).Pairwise (· < ·) := List.pairwise_map.mpr h.increasing
    rw [← hids] at hinc
    exact List.pairwise_map.mp hinc
  · intro r hr
    have hmem : r.1 ∈ t.rows.map Prod.fst := hids ▸ List.mem_map_of_mem hr
    obtain ⟨s, hs, hsr⟩ := List.mem_map.mp hmem
    exact hsr ▸ h.below s hs

/-- Replacing a row keeps it where it is. -/
theorem Ordered.replace_eq_ok (h : t.Ordered) {typeName : String} {t' : Table}
    (ht : t.replace typeName primaryKey? n new = .ok t') :
    ∃ k old, t.rows[k]? = some (n, old) ∧ t' = { t with rows := t.rows.set k (n, new) } ∧
      ∀ field, primaryKey? = some field → keyText old field = keyText new field := by
  obtain ⟨old, hold, rfl, hkey⟩ := Table.replace_eq_ok ht
  obtain ⟨k, hk⟩ := List.getElem?_of_mem (h.row_eq_some_iff.mp hold)
  exact ⟨k, old, hk, by rw [replaceRow_eq_set h.ids_nodup hk], hkey⟩

theorem Ordered.replace (h : t.Ordered) {typeName : String} {t' : Table}
    (ht : t.replace typeName primaryKey? n new = .ok t') : t'.Ordered := by
  obtain ⟨k, old, hk, rfl, -⟩ := h.replace_eq_ok ht
  exact h.set hk

/-- Replacing a row with one of the same key leaves the index as it is. -/
theorem Indexed.set (h : t.Indexed primaryKey?) (hk : t.rows[k]? = some (n, old))
    (hkey : ∀ field, primaryKey? = some field → keyText old field = keyText new field) :
    Indexed { t with rows := t.rows.set k (n, new) } primaryKey? := by
  cases primaryKey? with
  | none => exact h
  | some field =>
    refine ⟨?_, h.2⟩
    show t.keys = (t.rows.set k (n, new)).map fun r => (keyText r.2 field, r.1)
    rw [List.map_set, ← hkey field rfl, h.1]
    refine (set_of_getElem ?_).symm
    simp [List.getElem?_map, hk]

theorem remove_rows (t : Table) (primaryKey? : Option String) (n : Nat) :
    (t.remove primaryKey? n).rows.Sublist t.rows ∧
      (t.remove primaryKey? n).nextRow = t.nextRow := by
  unfold remove
  split
  · exact ⟨.refl _, rfl⟩
  · cases primaryKey? with
    | none => exact ⟨List.filter_sublist, rfl⟩
    | some field => exact ⟨List.filter_sublist, rfl⟩

theorem Ordered.remove (h : t.Ordered) : (t.remove primaryKey? n).Ordered := by
  obtain ⟨hrows, hnext⟩ := remove_rows t primaryKey? n
  refine ⟨h.increasing.sublist hrows, fun r hr => ?_⟩
  rw [hnext]
  exact h.below r (hrows.subset hr)

/-- Removing a row takes it and its key out of their place. -/
theorem Indexed.remove_eq (h : t.Indexed primaryKey?) (ht : t.Ordered)
    (hk : t.rows[k]? = some (n, old)) :
    t.remove primaryKey? n =
      { t with rows := t.rows.eraseIdx k, keys := t.keys.eraseIdx k } := by
  have hrows : t.rows.filter (·.1 != n) = t.rows.eraseIdx k :=
    filter_eq_eraseIdx ht.ids_nodup hk
  simp only [remove, ht.row_of_getElem hk, hrows]
  cases primaryKey? with
  | none =>
    have hkeys : t.keys = [] := h
    simp [hkeys]
  | some field =>
    have hkey : t.keys[k]? = some (keyText old field, n) := by
      rw [h.1, List.getElem?_map, hk]
      rfl
    have hkeys : t.keys.filter (·.1 != keyText old field) = t.keys.eraseIdx k :=
      filter_eq_eraseIdx h.2 hkey
    simp only [hkeys]

theorem Indexed.eraseIdx (h : t.Indexed primaryKey?) (k : Nat) :
    Indexed { t with rows := t.rows.eraseIdx k, keys := t.keys.eraseIdx k } primaryKey? := by
  cases primaryKey? with
  | none =>
    have hkeys : t.keys = [] := h
    show t.keys.eraseIdx k = []
    simp [hkeys]
  | some field =>
    constructor
    · show t.keys.eraseIdx k = (t.rows.eraseIdx k).map _
      rw [h.1, List.eraseIdx_map]
    · exact h.2.sublist ((List.eraseIdx_sublist ..).map _)

/-- Removing a row removes its entry of the index. -/
theorem Indexed.remove (h : t.Indexed primaryKey?) (ht : t.Ordered) :
    (t.remove primaryKey? n).Indexed primaryKey? := by
  cases hrow : t.row? n with
  | none =>
    simp only [Table.remove, hrow]
    exact h
  | some old =>
    obtain ⟨k, hk⟩ := List.getElem?_of_mem (ht.row_eq_some_iff.mp hrow)
    rw [h.remove_eq ht hk]
    exact h.eraseIdx k

inductive Call where
  | insert (row : Values)
  | replace (number : Nat) (row : Values)
  | remove (number : Nat)

/-- What a call makes of the table of a model where it succeeds. -/
def Call.attempt (m : Model) (t : Table) : Call → Except StoreError Table
  | .insert row => t.insert m.typeName m.primaryKey? row
  | .replace n row => t.replace m.typeName m.primaryKey? n row
  | .remove n => .ok (t.remove m.primaryKey? n)

variable {m : Model} {t' : Table} {c : Call}

theorem Ordered.attempt (h : t.Ordered) (ht : c.attempt m t = .ok t') : t'.Ordered := by
  cases c with
  | insert row => exact h.insert ht
  | replace n row => exact h.replace ht
  | remove n =>
    cases ht
    exact h.remove

theorem Indexed.attempt (hi : t.Indexed m.primaryKey?) (h : t.Ordered)
    (ht : c.attempt m t = .ok t') : t'.Indexed m.primaryKey? := by
  cases c with
  | insert row => exact hi.insert ht
  | replace n row =>
    obtain ⟨k, old, hk, rfl, hkey⟩ := h.replace_eq_ok ht
    exact hi.set hk hkey
  | remove n =>
    cases ht
    exact hi.remove h

theorem mem_values_insert {typeName : String} {t' : Table}
    (h : t.insert typeName primaryKey? new = .ok t') {row : Values} (hrow : row ∈ t'.values) :
    row ∈ t.values ∨ row = new := by
  rw [values, (insert_eq_ok h).1, List.map_append] at hrow
  exact (List.mem_append.mp hrow).imp_right List.mem_singleton.mp

theorem Ordered.mem_values_replace (ht : t.Ordered) {typeName : String} {t' : Table}
    (h : t.replace typeName primaryKey? n new = .ok t') {row : Values} (hrow : row ∈ t'.values) :
    row ∈ t.values ∨ row = new := by
  obtain ⟨k, old, -, rfl, -⟩ := ht.replace_eq_ok h
  have hset : row ∈ t.values.set k new := by simpa only [values, List.map_set] using hrow
  exact List.mem_or_eq_of_mem_set hset

theorem mem_values_remove {row : Values} (h : row ∈ (t.remove primaryKey? n).values) :
    row ∈ t.values :=
  ((remove_rows t primaryKey? n).1.map _).subset h

theorem positions_isEmpty {α : Type} {test : α → Bool} {items : List α} :
    (positions test items).isEmpty ↔ ∀ a ∈ items, test a = false := by
  have hfst : (∀ a ∈ items, test a = false) ↔ ∀ p ∈ items.zipIdx, test p.1 = false := by
    conv_lhs => rw [← List.zipIdx_map_fst 0 items]
    exact List.forall_mem_map
  rw [hfst, positions, List.isEmpty_iff, List.map_eq_nil_iff, List.filter_eq_nil_iff]
  simp

theorem row_isNone_eq_false {t : Table} {n : Nat} :
    (t.row? n).isNone = false ↔ n ∈ t.rows.map Prod.fst := by
  rw [Option.isNone_eq_false_iff, row?, List.lookup_isSome_iff]
  constructor
  · rintro ⟨r, hr, hn⟩
    exact List.mem_map.mpr ⟨r, hr, (beq_iff_eq.mp hn).symm⟩
  · intro hn
    obtain ⟨r, hr, rfl⟩ := List.mem_map.mp hn
    exact ⟨r, hr, beq_self_eq_true _⟩

theorem SameRows.ids_eq {old : Table} (h : SameRows old t) :
    old.rows.map Prod.fst = t.rows.map Prod.fst := by
  unfold SameRows at h
  generalize old.rows = olds at h ⊢
  generalize t.rows = rows at h ⊢
  induction h with
  | nil => rfl
  | cons hhead _ ih => rw [List.map_cons, List.map_cons, hhead.1, ih]

/-- Rows with the same numbers in the same order are compared one by one. -/
theorem forall₂_of_ids_eq {old rows : List (Nat × Values)}
    (hids : old.map Prod.fst = rows.map Prod.fst)
    (h : ∀ a ∈ old, ∀ b ∈ rows, a.1 = b.1 → Values.same a.2 b.2 = true) :
    List.Forall₂ (fun a b => a.1 = b.1 ∧ Values.same a.2 b.2 = true) old rows := by
  induction old generalizing rows with
  | nil =>
    rw [List.map_eq_nil_iff.mp hids.symm]
    exact .nil
  | cons a old ih =>
    cases rows with
    | nil => cases hids
    | cons b rows =>
      obtain ⟨hab, hids⟩ := List.cons.inj hids
      have hhead := h a (List.mem_cons_self ..) b (List.mem_cons_self ..) hab
      exact .cons ⟨hab, hhead⟩ (ih hids fun a ha b hb =>
        h a (List.mem_cons_of_mem _ ha) b (List.mem_cons_of_mem _ hb))

/-- A table differs nowhere from an older version just where the rows are the same. -/
theorem changesSince_isEmpty {old : Table} (hold : old.Ordered) (ht : t.Ordered) :
    (t.changesSince old).isEmpty ↔ SameRows old t := by
  simp only [ChangeIndices.isEmpty, changesSince, Bool.and_eq_true, positions_isEmpty,
    row_isNone_eq_false]
  constructor
  · rintro ⟨⟨hdeleted, hinserted⟩, hmodified⟩
    have hids : old.rows.map Prod.fst = t.rows.map Prod.fst := by
      have hold' : (old.rows.map Prod.fst).Pairwise (· < ·) :=
        List.pairwise_map.mpr hold.increasing
      have ht' : (t.rows.map Prod.fst).Pairwise (· < ·) := List.pairwise_map.mpr ht.increasing
      refine List.Subset.antisymm_of_pairwise hold' ht' ?_ ?_
      · exact fun n hn => by
          obtain ⟨r, hr, rfl⟩ := List.mem_map.mp hn
          exact hdeleted r hr
      · exact fun n hn => by
          obtain ⟨r, hr, rfl⟩ := List.mem_map.mp hn
          exact hinserted r hr
    refine forall₂_of_ids_eq hids fun a ha b hb hab => ?_
    have hrow : old.row? b.1 = some a.2 := hold.row_eq_some_iff.mpr (hab ▸ ha)
    simpa [hrow] using hmodified b hb
  · intro h
    refine ⟨⟨fun r hr => ?_, fun r hr => ?_⟩, fun r hr => ?_⟩
    · exact h.ids_eq ▸ List.mem_map_of_mem hr
    · exact h.ids_eq ▸ List.mem_map_of_mem hr
    · obtain ⟨a, ha, hid, hsame⟩ := exists_of_forall₂ h hr
      have hrow : old.row? r.1 = some a.2 := hold.row_eq_some_iff.mpr (hid ▸ ha)
      simp [hrow, hsame]

end Table

end RecordStore
