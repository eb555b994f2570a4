import RecordStore.Proofs.Model.Faithful
import RecordStore.Proofs.Store.PartialUpdate

/-!
What a write returns and what listing shows, if the records can be listed at all. What is created is
returned as it is read, so it is listed as it was returned. What is updated is returned as it was
changed, and listed as its row reads: every field as it was returned, just where its value loses
nothing in its stored form.
-/
namespace RecordStore

def Store.ShowsAt (s : Store) (m : Model) (k : Nat) (expected : Record → Prop) : Prop :=
  ∀ rs, s.objects m = .ok rs → ∃ shown, rs[k]? = some shown ∧ expected shown

def Table.IsAt (t : Table) (i : Identity) (k : Nat) : Prop :=
  ∃ n old, t.locate i = some n ∧ t.rows[k]? = some (n, old)

namespace Store

variable {models : Model → Prop} {m : Model} {s s' : Store} {r : Record}

/-- A transaction of one operation that succeeds leaves its table as the operation made it. -/
theorem attempt_of_transact {a : Access} {reply : a.Reply}
    (h : s.transact a.perform = (.ok reply, s')) :
    ∃ t, a.attempt (s.tables.table a.typeName) = .ok (reply, t) ∧
      s'.tables.table a.typeName = t := by
  cases hattempt : a.attempt (s.tables.table a.typeName) with
  | error e => exact nomatch h.symm.trans (transact_of_error hattempt)
  | ok result =>
    obtain ⟨s₁, hrun, htables⟩ := transact_of_ok hattempt
    obtain ⟨hreply, rfl⟩ := Prod.mk.inj (h.symm.trans hrun)
    cases hreply
    refine ⟨result.2, rfl, ?_⟩
    rw [htables, Function.update_self]

/-- What is shown at a position is what the row there reads as. -/
theorem showsAt_of_row {row : Values} {k n : Nat} {expected : Record → Prop}
    (hk : (s.tables.table m.typeName).rows[k]? = some (n, row))
    (hread : ∀ shown, m.fromValues row = .ok shown → expected shown) : s.ShowsAt m k expected := by
  intro rs hrs
  have hrecords := Table.records_eq_ok.mp hrs
  have hvalues : (s.tables.table m.typeName).values[k]? = some row := by
    rw [Table.values, List.getElem?_map, hk]
    rfl
  obtain ⟨hlt, hget⟩ := List.getElem?_eq_some_iff.mp hvalues
  have hlt' : k < rs.length := hrecords.length_eq ▸ hlt
  have hone := List.Forall₂.get hrecords hlt hlt'
  rw [List.get_eq_getElem, hget] at hone
  exact ⟨rs[k], List.getElem?_eq_getElem hlt', hread _ hone⟩

/-- What is created is shown as it was returned, after all other records. -/
theorem showsAt_create (hm : m.Sound) (hform : m.form = .fields) {given : Record}
    (hgiven : m.Admits given) {values : Values} (hvalues : given.toValues = .ok values)
    (h : s.transact (Transact.create m values) = (.ok r, s')) :
    m.Shown given.fields r ∧
      s'.ShowsAt m (s.tables.table m.typeName).rows.length (· = r) := by
  obtain ⟨t, hattempt, htable⟩ := attempt_of_transact (a := .create m values) h
  obtain ⟨r', hr', hattempt⟩ := Data.bind_eq_ok.mp hattempt
  obtain ⟨row, hrow, hattempt⟩ := Data.bind_eq_ok.mp hattempt
  obtain ⟨t', ht', hattempt⟩ := Data.bind_eq_ok.mp hattempt
  cases hattempt
  refine ⟨Model.shown_of_fromValues hm hform hgiven hvalues hr', ?_⟩
  have htable : s'.tables.table m.typeName = t := htable
  have hlast : (s'.tables.table m.typeName).rows[(s.tables.table m.typeName).rows.length]? =
      some ((s.tables.table m.typeName).nextRow, row) := by
    rw [htable, (Table.insert_eq_ok ht').1]
    exact List.getElem?_concat_length ..
  have hproper := (Model.rowReadsBack hm hgiven hvalues).proper
  have hagain := Model.fromValues_toValues hm hproper hr' hrow
  exact showsAt_of_row hlast fun shown hshown => Except.ok.inj (hshown.symm.trans hagain)

/-- What is updated has the values that were given, and is shown where it was before as its row
reads; nothing but a given value can be lost there. -/
theorem showsAt_update (hmodels : ∀ m, models m → m.Sound) (hm : m.Sound) (hform : m.form = .fields)
    (hs : View.Sound models s.tables.table) {i : Identity} {changes : List (String × Data)}
    (hchanges : m.TypedChanges changes)
    (h : s.transact (Transact.modifyRecord m i (·.setAll changes)) = (.ok r, s')) :
    r.transient = m.defaults ∧ (∀ c ∈ changes, r.get? c.1 = some c.2) ∧
      (∀ e ∈ r.fields, changes.lookup e.1 = none → e.2.Plain) ∧
      ∃ k, (s.tables.table m.typeName).IsAt i k ∧ s'.ShowsAt m k (m.Shown r.fields) := by
  obtain ⟨t, hattempt, htable⟩ := attempt_of_transact (a := .modify m i (·.setAll changes)) h
  have ht := hs m.typeName
  obtain ⟨n, hn, hattempt⟩ := Data.bind_eq_ok.mp hattempt
  obtain ⟨before, hbefore, hattempt⟩ := Data.bind_eq_ok.mp hattempt
  obtain ⟨new, hnew, hattempt⟩ := Data.bind_eq_ok.mp hattempt
  obtain ⟨t', ht', hattempt⟩ := Data.bind_eq_ok.mp hattempt
  cases hattempt
  obtain ⟨k, old, hrow, ht', -⟩ := ht.ordered.replace_eq_ok ht'
  have hbefore : (s.tables.table m.typeName).read m n = .ok before := hbefore
  have hread : m.fromValues old = .ok before := by
    simpa only [Table.read, ht.ordered.row_of_getElem hrow] using hbefore
  have hmem : old ∈ (s.tables.table m.typeName).values :=
    List.mem_map_of_mem (List.mem_of_getElem? hrow)
  obtain ⟨hadmits, hplain, htransient⟩ :=
    Model.admits_of_fromValues hm (ht.proper hmodels hmem) hread
  obtain ⟨hadmits', htransient', hgiven⟩ := hm.setAll hform hadmits htransient hchanges
  refine ⟨htransient', hgiven, ?_, k, ⟨n, old, Table.find_eq_ok.mp hn, hrow⟩, ?_⟩
  · intro e he
    have hfields : (before.setAll changes).fields =
        replaceFields (changes.lookup ·) before.fields :=
      congrArg Record.fields (Model.setAll_changes hm hform hadmits htransient hchanges.toChanges)
    have he : e ∈ replaceFields (changes.lookup ·) before.fields := hfields ▸ he
    exact Model.plain_of_replaceFields hplain he
  · have htable : s'.tables.table m.typeName = t := htable
    have hset : (s'.tables.table m.typeName).rows[k]? = some (n, new) := by
      rw [htable, ht']
      exact List.getElem?_set_self (List.getElem?_eq_some_iff.mp hrow).1
    exact showsAt_of_row hset fun shown => Model.shown_of_fromValues hm hform hadmits' hnew

end Store

end RecordStore
