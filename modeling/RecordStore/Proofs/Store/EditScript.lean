import RecordStore.Proofs.Store.Lineage

/-!
The difference of two versions of a table as an edit script. Positions of deleted rows count in the
older version, the others in the newer one. What is left of the two versions when deleted and
inserted rows are taken away are the same rows in one order, and of these the modified ones are just
those whose values differ. Who follows the script on a copy of the older version gets the newer one.
-/
namespace RecordStore

namespace ChangeIndices

variable {α : Type}

/-- The items of a list that are not at given positions; the first item is at position `k`. -/
def withoutFrom (removed : List Nat) : Nat → List α → List α
  | _, [] => []
  | k, a :: rest =>
    if k ∈ removed then withoutFrom removed (k + 1) rest
    else a :: withoutFrom removed (k + 1) rest

def without (removed : List Nat) (items : List α) : List α := withoutFrom removed 0 items

/-- The new items in order, of which one takes only those inserted and modified, and own items in
the place of the others. -/
def merge (c : ChangeIndices) : Nat → List α → List α → List α
  | _, _, [] => []
  | k, kept, item :: rest =>
    if k ∈ c.insertions then item :: merge c (k + 1) kept rest
    else
      match kept with
      | [] => []
      | own :: kept => (if k ∈ c.modifications then item else own) :: merge c (k + 1) kept rest

def follow (c : ChangeIndices) (copy new : List α) : List α :=
  merge c 0 (without c.deletions copy) new

end ChangeIndices

open ChangeIndices

namespace Table

/-- A row that is at two positions of two versions, and is modified just where its values differ. -/
def Survives (old t : Table) (c : ChangeIndices) (i j : Nat) : Prop :=
  ∃ n before after, old.rows[i]? = some (n, before) ∧ t.rows[j]? = some (n, after) ∧
    (j ∈ c.modifications ↔ before.same after = false)

/-- Positions that turn an older version of a table into a newer one. A row that is inserted has a
number that was never given out before. -/
structure EditScript (old t : Table) (c : ChangeIndices) : Prop where
  deletions_increasing : c.deletions.Pairwise (· < ·)
  deletions_lt : ∀ k ∈ c.deletions, k < old.rows.length
  insertions_increasing : c.insertions.Pairwise (· < ·)
  insertions_lt : ∀ k ∈ c.insertions, k < t.rows.length
  modifications_increasing : c.modifications.Pairwise (· < ·)
  modifications_lt : ∀ k ∈ c.modifications, k < t.rows.length
  disjoint : ∀ k ∈ c.insertions, k ∉ c.modifications
  survivors : List.Forall₂ (Survives old t c)
    (without c.deletions (List.range old.rows.length))
    (without c.insertions (List.range t.rows.length))
  fresh : ∀ k ∈ c.insertions, ∀ r, t.rows[k]? = some r → old.nextRow ≤ r.1

section
variable {α : Type} {test : α → Bool} {items : List α}

theorem mem_positions {k : Nat} :
    k ∈ positions test items ↔ ∃ a, items[k]? = some a ∧ test a = true := by
  simp only [positions, List.mem_map, List.mem_filter, Prod.exists, List.mem_zipIdx_iff_getElem?]
  constructor
  · rintro ⟨a, j, ⟨hj, ha⟩, rfl⟩
    exact ⟨a, hj, ha⟩
  · rintro ⟨a, hk, ha⟩
    exact ⟨a, k, ⟨hk, ha⟩, rfl⟩

theorem lt_of_mem_positions {k : Nat} (h : k ∈ positions test items) : k < items.length := by
  obtain ⟨a, hk, -⟩ := mem_positions.mp h
  exact (List.getElem?_eq_some_iff.mp hk).1

theorem positions_increasing : (positions test items).Pairwise (· < ·) := by
  have hall : (items.zipIdx.map Prod.snd).Pairwise (· < ·) := by
    rw [List.zipIdx_map_snd]
    exact List.pairwise_lt_range'
  exact hall.sublist (List.filter_sublist.map _)

/-- Positions depend on the outcomes of the test only. -/
theorem positions_eq_map (test : α → Bool) (items : List α) :
    positions test items = positions id (items.map test) := by
  have hzip : (items.map test).zipIdx = items.zipIdx.map fun p => (test p.1, p.2) := by
    rw [List.zipIdx_map]
    rfl
  simp only [positions, hzip, List.filter_map, List.map_map]
  rfl

/-- Related lists stay related when the same positions are removed from both. -/
theorem forall₂_withoutFrom {β : Type} {R : α → β → Prop} (removed : List Nat) {as : List α}
    {bs : List β} (h : List.Forall₂ R as bs) (k : Nat) :
    List.Forall₂ R (withoutFrom removed k as) (withoutFrom removed k bs) := by
  induction h generalizing k with
  | nil => exact .nil
  | cons hhead _ ih =>
    rw [withoutFrom, withoutFrom]
    by_cases hk : k ∈ removed
    · rw [if_pos hk, if_pos hk]
      exact ih (k + 1)
    · rw [if_neg hk, if_neg hk]
      exact .cons hhead (ih (k + 1))

/-- Removing the positions of some items is the same as filtering the items out. -/
theorem withoutFrom_eq_filter {removed : List Nat} {k : Nat}
    (h : ∀ j a, items[j]? = some a → (k + j ∈ removed ↔ test a = true)) :
    withoutFrom removed k items = items.filter fun a => !test a := by
  induction items generalizing k with
  | nil => rfl
  | cons a rest ih =>
    have hrest := ih (k := k + 1) fun j b hb => by
      have hj := h (j + 1) b (by simpa using hb)
      rwa [show k + (j + 1) = k + 1 + j by omega] at hj
    have ha : k ∈ removed ↔ test a = true := h 0 a rfl
    by_cases htest : test a = true
    · rw [withoutFrom, if_pos (ha.mpr htest), List.filter_cons_of_neg (by simp [htest]), hrest]
    · rw [withoutFrom, if_neg (mt ha.mp htest), List.filter_cons_of_pos (by simp [htest]), hrest]

/-- Without the positions of what a test selects there is what it does not select. -/
theorem without_positions (test : α → Bool) (items : List α) :
    without (positions test items) items = items.filter fun a => !test a := by
  refine withoutFrom_eq_filter fun j a ha => ?_
  rw [Nat.zero_add, mem_positions]
  constructor
  · rintro ⟨b, hb, htest⟩
    obtain rfl : b = a := Option.some.inj (hb.symm.trans ha)
    exact htest
  · exact fun htest => ⟨a, ha, htest⟩

theorem forall₂_range (items : List α) :
    List.Forall₂ (fun k a => items[k]? = some a) (List.range items.length) items := by
  refine List.forall₂_iff_get.mpr ⟨List.length_range, fun k hk hk' => ?_⟩
  simp [List.getElem?_eq_getElem hk']

theorem forall₂_trans {β γ : Type} {R : α → β → Prop} {S : β → γ → Prop} {T : α → γ → Prop}
    (hT : ∀ a b c, R a b → S b c → T a c) {as : List α} {bs : List β} {cs : List γ}
    (h : List.Forall₂ R as bs) (h' : List.Forall₂ S bs cs) : List.Forall₂ T as cs := by
  induction h generalizing cs with
  | nil =>
    cases h'
    exact .nil
  | cons hhead _ ih =>
    cases h' with
    | cons hhead' hrest' => exact .cons (hT _ _ _ hhead hhead') (ih hrest')

end

variable {old t : Table}

theorem deletions_changesSince (old t : Table) : (t.changesSince old).deletions =
    positions (fun r => (t.row? r.1).isNone) old.rows := rfl

theorem insertions_changesSince (old t : Table) : (t.changesSince old).insertions =
    positions (fun r => (old.row? r.1).isNone) t.rows := rfl

theorem modifications_changesSince (old t : Table) : (t.changesSince old).modifications =
    positions (fun r =>
      match old.row? r.1 with
      | none => false
      | some before => !Values.same before r.2) t.rows := rfl

theorem mem_insertions {k : Nat} : k ∈ (t.changesSince old).insertions ↔
    ∃ r, t.rows[k]? = some r ∧ (old.row? r.1).isNone = true := by
  rw [insertions_changesSince, mem_positions]

/-- A row that is in both versions is modified where its values differ. -/
theorem Ordered.mem_modifications (hold : old.Ordered) {i j n : Nat} {before after : Values}
    (hi : old.rows[i]? = some (n, before)) (hj : t.rows[j]? = some (n, after)) :
    j ∈ (t.changesSince old).modifications ↔ before.same after = false := by
  have hrow : old.row? n = some before := hold.row_of_getElem hi
  rw [modifications_changesSince, mem_positions]
  constructor
  · rintro ⟨r, hr, htest⟩
    obtain rfl : r = (n, after) := Option.some.inj (hr.symm.trans hj)
    simpa [hrow] using htest
  · exact fun hdiffer => ⟨(n, after), hj, by simp [hrow, hdiffer]⟩

/-- The rows that are in both versions are in one order in them. -/
theorem Ordered.survivors (hold : old.Ordered) (ht : t.Ordered) :
    List.Forall₂ (fun a b => a.1 = b.1) (old.rows.filter fun r => !(t.row? r.1).isNone)
      (t.rows.filter fun r => !(old.row? r.1).isNone) := by
  have hincreasing {u : Table} (hu : u.Ordered) (p : Nat × Values → Bool) :
      ((u.rows.filter p).map Prod.fst).Pairwise (· < ·) :=
    List.pairwise_map.mpr (hu.increasing.sublist List.filter_sublist)
  have hsubset (u v : Table) :
      (u.rows.filter fun r => !(v.row? r.1).isNone).map Prod.fst ⊆
        (v.rows.filter fun r => !(u.row? r.1).isNone).map Prod.fst := by
    intro n hn
    obtain ⟨r, hr, rfl⟩ := List.mem_map.mp hn
    obtain ⟨hmem, hother⟩ := List.mem_filter.mp hr
    obtain ⟨s, hs, hid⟩ := List.mem_map.mp (row_isNone_eq_false.mp (by simpa using hother))
    refine List.mem_map.mpr ⟨s, List.mem_filter.mpr ⟨hs, ?_⟩, hid⟩
    simp [row_isNone_eq_false.mpr (hid ▸ List.mem_map_of_mem hmem : s.1 ∈ u.rows.map Prod.fst)]
  have hids := List.Subset.antisymm_of_pairwise
    (hincreasing hold fun r => !(t.row? r.1).isNone)
    (hincreasing ht fun r => !(old.row? r.1).isNone) (hsubset old t) (hsubset t old)
  rw [← List.forall₂_eq_eq_eq] at hids
  exact List.forall₂_map_left_iff.mp (List.forall₂_map_right_iff.mp hids)

/-- Where a table differs from a version that it came of is a script that leads to it. -/
theorem editScript_changesSince (hold : old.Ordered) (ht : t.Ordered)
    (hdescends : old.Descends none t) : old.EditScript t (t.changesSince old) where
  deletions_increasing := deletions_changesSince old t ▸ positions_increasing
  deletions_lt := deletions_changesSince old t ▸ fun _ => lt_of_mem_positions
  insertions_increasing := insertions_changesSince old t ▸ positions_increasing
  insertions_lt := insertions_changesSince old t ▸ fun _ => lt_of_mem_positions
  modifications_increasing := modifications_changesSince old t ▸ positions_increasing
  modifications_lt := modifications_changesSince old t ▸ fun _ => lt_of_mem_positions
  disjoint := by
    intro k hinserted hmodified
    obtain ⟨r, hr, hnew⟩ := mem_insertions.mp hinserted
    rw [modifications_changesSince, mem_positions] at hmodified
    obtain ⟨r', hr', hdiffer⟩ := hmodified
    obtain rfl : r' = r := Option.some.inj (hr'.symm.trans hr)
    rw [Option.isNone_iff_eq_none.mp hnew] at hdiffer
    exact absurd hdiffer Bool.false_ne_true
  survivors := by
    have hkept : without (t.changesSince old).deletions old.rows =
        old.rows.filter fun r => !(t.row? r.1).isNone := by
      rw [deletions_changesSince, without_positions]
    have hfound : without (t.changesSince old).insertions t.rows =
        t.rows.filter fun r => !(old.row? r.1).isNone := by
      rw [insertions_changesSince, without_positions]
    have hids := hold.survivors ht
    rw [← hkept, ← hfound] at hids
    have hbefore := forall₂_withoutFrom (t.changesSince old).deletions (forall₂_range old.rows) 0
    have hafter := forall₂_withoutFrom (t.changesSince old).insertions (forall₂_range t.rows) 0
    have hboth := forall₂_trans (T := fun i (b : Nat × Values) =>
      ∃ before, old.rows[i]? = some (b.1, before)) ?_ hbefore hids
    · refine forall₂_trans ?_ hboth hafter.flip
      rintro i ⟨n, after⟩ j ⟨before, hi⟩ hj
      exact ⟨n, before, after, hi, hj, hold.mem_modifications hi hj⟩
    · rintro i ⟨n, before⟩ ⟨n', after⟩ hi rfl
      exact ⟨before, hi⟩
  fresh := by
    intro k hk r hr
    obtain ⟨r', hr', hnew⟩ := mem_insertions.mp hk
    obtain rfl : r' = r := Option.some.inj (hr'.symm.trans hr)
    rcases hdescends.fresh r' (List.mem_of_getElem? hr) with hmem | hle
    · rw [row_isNone_eq_false.mpr hmem] at hnew
      exact absurd hnew Bool.false_ne_true
    · exact hle

/-- A row of a version with the same rows has equal values. -/
theorem SameRows.row_eq_some {old' : Table} (h : SameRows old old') (hold : old.Ordered)
    {n : Nat} {before : Values} (hrow : old'.row? n = some before) :
    ∃ before', old.row? n = some before' ∧ before'.same before = true := by
  have hmem : (n, before) ∈ old'.rows := mem_of_lookup hrow
  obtain ⟨⟨n', before'⟩, hmem', hid, hsame⟩ := exists_of_forall₂ h hmem
  obtain rfl : n' = n := hid
  exact ⟨before', hold.row_eq_some_iff.mpr hmem', hsame⟩

/-- A difference does not tell a version from another with the same rows. -/
theorem changesSince_congr {old' : Table} (hold : old.Ordered)
    (hproper : ∀ row ∈ old.values, row.Proper) (hproper' : ∀ row ∈ old'.values, row.Proper)
    (h : SameRows old old') : t.changesSince old = t.changesSince old' := by
  have hnone (n : Nat) : (old.row? n).isNone = (old'.row? n).isNone := by
    rw [Bool.eq_iff_iff, ← not_iff_not, Bool.not_eq_true, Bool.not_eq_true, row_isNone_eq_false,
      row_isNone_eq_false, h.ids_eq]
  have hdeletions : (t.changesSince old).deletions = (t.changesSince old').deletions := by
    have hmap (u : Table) : u.rows.map (fun r => (t.row? r.1).isNone) =
        (u.rows.map Prod.fst).map fun n => (t.row? n).isNone := by
      rw [List.map_map]
      rfl
    rw [deletions_changesSince, deletions_changesSince, positions_eq_map,
      positions_eq_map _ old'.rows, hmap, hmap, h.ids_eq]
  have hinsertions : (t.changesSince old).insertions = (t.changesSince old').insertions := by
    simp only [insertions_changesSince, hnone]
  have hmodifications :
      (t.changesSince old).modifications = (t.changesSince old').modifications := by
    rw [modifications_changesSince, modifications_changesSince]
    congr 1
    funext r
    cases hrow' : old'.row? r.1 with
    | none =>
      have hrow : old.row? r.1 = none := by
        rw [← Option.isNone_iff_eq_none, hnone, hrow', Option.isNone_none]
      rw [hrow]
    | some before =>
      obtain ⟨before', hrow, hsame⟩ := h.row_eq_some hold hrow'
      have hmem : (r.1, before') ∈ old.rows := mem_of_lookup hrow
      have hmem' : (r.1, before) ∈ old'.rows := mem_of_lookup hrow'
      have hback : before.same before' = true :=
        Values.same_symm (hproper _ (List.mem_map_of_mem hmem))
          (hproper' _ (List.mem_map_of_mem hmem')) hsame
      rw [hrow]
      refine congrArg not (Bool.eq_iff_iff.mpr ⟨Values.same_trans hback, Values.same_trans hsame⟩)
  calc t.changesSince old
      = ⟨(t.changesSince old).deletions, (t.changesSince old).insertions,
          (t.changesSince old).modifications⟩ := rfl
    _ = ⟨(t.changesSince old').deletions, (t.changesSince old').insertions,
          (t.changesSince old').modifications⟩ := by rw [hdeletions, hinsertions, hmodifications]
    _ = t.changesSince old' := rfl

section
variable {α : Type} {c : ChangeIndices}

theorem merge_of_inserted {k : Nat} (h : k ∈ c.insertions) (kept : List α) (item : α)
    (rest : List α) : c.merge k kept (item :: rest) = item :: c.merge (k + 1) kept rest := by
  cases kept <;> rw [merge, if_pos h]

/-- Merging gives a list that is in place everywhere, if new items are and kept ones are where
nothing is modified. -/
theorem forall₂_merge {P : α → Nat → Prop} {n k : Nat} {kept new : List α}
    (hnew : List.Forall₂ P new (List.range' k n))
    (hkept : List.Forall₂ (fun a j => j ∉ c.modifications → P a j) kept
      (withoutFrom c.insertions k (List.range' k n))) :
    List.Forall₂ P (c.merge k kept new) (List.range' k n) := by
  induction n generalizing k kept new with
  | zero =>
    cases hnew
    exact .nil
  | succ n ih =>
    rw [List.range'_succ] at hnew hkept ⊢
    cases hnew with
    | @cons item _ rest _ hitem hrest =>
      by_cases hinserted : k ∈ c.insertions
      · rw [withoutFrom, if_pos hinserted] at hkept
        rw [merge_of_inserted hinserted]
        exact .cons hitem (ih hrest hkept)
      · rw [withoutFrom, if_neg hinserted] at hkept
        cases hkept with
        | @cons own _ kept _ hown hkept =>
          rw [merge, if_neg hinserted]
          refine .cons ?_ (ih hrest hkept)
          by_cases hmodified : k ∈ c.modifications
          · rw [if_pos hmodified]
            exact hitem
          · rw [if_neg hmodified]
            exact hown hmodified

/-- Who follows a script on a copy of the older version has a copy of the newer one. Items of a copy
need not be told from those of rows with equal values. -/
theorem EditScript.follow (h : old.EditScript t c) {R : α → Values → Prop}
    (hsame : ∀ a before after, R a before → before.same after = true → R a after)
    {copy new : List α} (hcopy : List.Forall₂ R copy old.values)
    (hnew : List.Forall₂ R new t.values) :
    List.Forall₂ R (c.follow copy new) t.values := by
  rw [values, List.forall₂_map_right_iff] at hcopy hnew ⊢
  have hold := forall₂_trans (T := fun a i => ∃ r, old.rows[i]? = some r ∧ R a r.2)
    (fun a r i ha hi => ⟨r, hi, ha⟩) hcopy (forall₂_range old.rows).flip
  have hnew' := forall₂_trans (T := fun a j => ∃ r, t.rows[j]? = some r ∧ R a r.2)
    (fun a r j ha hj => ⟨r, hj, ha⟩) hnew (forall₂_range t.rows).flip
  have hkept := forall₂_trans
    (T := fun a j => j ∉ c.modifications → ∃ r, t.rows[j]? = some r ∧ R a r.2) ?_
    (forall₂_withoutFrom c.deletions hold 0) h.survivors
  · rw [List.range_eq_range'] at hnew'
    rw [without, List.range_eq_range'] at hkept
    have hmerged := forall₂_merge hnew' hkept
    rw [← List.range_eq_range'] at hmerged
    refine forall₂_trans ?_ hmerged (forall₂_range t.rows)
    rintro a j r ⟨r', hj', ha⟩ hj
    obtain rfl : r' = r := Option.some.inj (hj'.symm.trans hj)
    exact ha
  · rintro a i j ⟨r, hi, ha⟩ ⟨n, before, after, hi', hj, hmodified⟩ hnot
    obtain rfl : r = (n, before) := Option.some.inj (hi.symm.trans hi')
    have hequal : before.same after = true := by simpa using mt hmodified.mpr hnot
    exact ⟨(n, after), hj, hsame a before after ha hequal⟩

end

end Table

end RecordStore
