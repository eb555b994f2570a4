import RecordStore.Proofs.Computation
import RecordStore.Proofs.Store.Table
import RecordStore.Store.Basic
import Mathlib.Logic.Function.Basic

/-!
Transaction bodies as data. A script asks for one access after another and may look at what each one
answered, a failure included, before it goes on. What a script does depends only on the tables that
its transaction shows; each access works on one of them, and one that fails leaves it as it was.
-/
namespace RecordStore

/-- The tables that a transaction shows, by type name. -/
abbrev View := String → Table

inductive Access where
  | create (model : Model) (values : Values)
  | add (model : Model) (record : Record)
  | resolve (model : Model) (identity : Identity)
  | modify (model : Model) (identity : Identity) (change : Record → Record)
  | delete (model : Model) (identity : Identity)
  | objects (model : Model)

namespace Access

def model : Access → Model
  | .create m _ | .add m _ | .resolve m _ | .modify m _ _ | .delete m _ | .objects m => m

/-- The type name of the table that the operation works on. -/
def typeName (a : Access) : String := a.model.typeName

/-- What the operation answers where it succeeds. -/
abbrev Reply : Access → Type
  | .create .. | .resolve .. | .modify .. => Record
  | .add .. | .delete .. => Unit
  | .objects _ => List Record

def perform : (a : Access) → Transact a.Reply
  | .create m values => Transact.create m values
  | .add m r => Transact.add m r
  | .resolve m i => Transact.resolve m i
  | .modify m i change => Transact.modifyRecord m i change
  | .delete m i => Transact.delete m i
  | .objects m => Transact.objects m

end Access

namespace Table

def find (t : Table) (m : Model) (i : Identity) : Except StoreError Nat :=
  match t.locate i with
  | some n => .ok n
  | none => .error (.objectNotFound m.typeName)

theorem find_eq_ok {t : Table} {m : Model} {i : Identity} {n : Nat} :
    t.find m i = .ok n ↔ t.locate i = some n := by
  unfold find
  cases t.locate i <;> simp

def read (t : Table) (m : Model) (n : Nat) : Except StoreError Record :=
  match t.row? n with
  | some values => m.fromValues values
  | none => .error (.objectNotFound m.typeName)

end Table

/-- What a successful operation answers and makes of its table. -/
def Access.attempt : (a : Access) → Table → Except StoreError (a.Reply × Table)
  | .create m values, t => do
    let r ← m.fromValues values
    let row ← r.toValues
    return (r, ← t.insert m.typeName m.primaryKey? row)
  | .add m r, t => do
    let row ← r.toValues
    return ((), ← t.insert m.typeName m.primaryKey? row)
  | .resolve m i, t => do
    let n ← t.find m i
    return (← t.read m n, t)
  | .modify m i change, t => do
    let n ← t.find m i
    let old ← t.read m n
    let row ← (change old).toValues
    return (change old, ← t.replace m.typeName m.primaryKey? n row)
  | .delete m i, t => do
    let n ← t.find m i
    return ((), t.remove m.primaryKey? n)
  | .objects m, t => do
    return (← t.records m, t)

def Access.onView (a : Access) (v : View) : Except StoreError a.Reply × View :=
  match a.attempt (v a.typeName) with
  | .ok (reply, t) => (.ok reply, Function.update v a.typeName t)
  | .error e => (.error e, v)

/-- A finite body of a transaction. What it does next may depend on every answer so far. -/
inductive Script (α : Type) where
  | finish (result : Except StoreError α)
  | call (a : Access) (next : Except StoreError a.Reply → Script α)

namespace Script

variable {α : Type}

/-- The transaction body that a script stands for. -/
def run : Script α → Transact α
  | .finish result => ExceptT.mk (pure result)
  | .call a next => ExceptT.mk do
    let outcome ← a.perform.run
    (next outcome).run.run

def onView : Script α → View → Except StoreError α × View
  | .finish result, v => (result, v)
  | .call a next, v => (next (a.onView v).1).onView (a.onView v).2

end Script

namespace Tables

theorem get_cons (key : String) (u : Table) (rest : Tables) (n : String) :
    Tables.get? ((key, u) :: rest) n = if n = key then some u else rest.get? n :=
  lookup_cons_ite n (key, u) rest

theorem get_set (tables : Tables) (name : String) (t : Table) (n : String) :
    (tables.set name t).get? n = if n = name then some t else tables.get? n := by
  induction tables with
  | nil => rw [set, get_cons]
  | cons e rest ih =>
    obtain ⟨key, u⟩ := e
    by_cases h : key = name
    · subst h
      by_cases hn : n = key <;> simp [set, get_cons, hn]
    · by_cases hn : n = key
      · subst hn
        simp [set, get_cons, h]
      · simp [set, get_cons, h, hn, ih]

theorem keys_set (tables : Tables) (name : String) (t : Table) :
    (tables.set name t).map Prod.fst =
      if name ∈ tables.map Prod.fst then tables.map Prod.fst
      else tables.map Prod.fst ++ [name] := by
  induction tables with
  | nil => rfl
  | cons e rest ih =>
    obtain ⟨key, u⟩ := e
    by_cases h : key = name
    · subst h
      simp [set]
    · have hne : name ≠ key := Ne.symm h
      simp only [set, beq_false_of_ne h, Bool.false_eq_true, if_false, List.map_cons, ih,
        List.mem_cons, hne, false_or]
      split <;> rfl

theorem keys_set_nodup {tables : Tables} {name : String} {t : Table}
    (h : (tables.map Prod.fst).Nodup) : ((tables.set name t).map Prod.fst).Nodup := by
  rw [keys_set]
  split
  · exact h
  · next hnot =>
    refine List.nodup_append.mpr ⟨h, List.nodup_singleton _, ?_⟩
    rintro a ha b hb rfl
    exact hnot (List.mem_singleton.mp hb ▸ ha)

end Tables

namespace Transaction

theorem writable_eq (t : Transaction) (name : String) :
    t.writable name = (t.staged.get? name).getD (t.base.table name) := by
  unfold writable table? Tables.table
  cases t.staged.get? name <;> rfl

/-- What is staged is what the transaction shows from then on. -/
theorem writable_put (t : Transaction) (name : String) (table : Table) :
    (t.put name table).writable = Function.update t.writable name table := by
  funext n
  rw [writable_eq]
  simp only [put, Tables.get_set]
  by_cases h : n = name
  · subst h
    simp
  · simp [h, writable_eq]

theorem locate_table (t : Transaction) (name : String) (i : Identity) :
    (t.table? name).bind (·.locate i) = (t.writable name).locate i := by
  unfold writable
  cases t.table? name with
  | some table => rfl
  | none => cases i <;> rfl

theorem row_table (t : Transaction) (name : String) (n : Nat) :
    (t.table? name).bind (·.row? n) = (t.writable name).row? n := by
  unfold writable
  cases t.table? name <;> rfl

/-- A later point of a transaction at which it shows given tables. Each table has one copy. -/
structure Reaches (t t' : Transaction) (v : View) : Prop where
  base : t'.base = t.base
  view : t'.writable = v
  names_nodup : (t.staged.map Prod.fst).Nodup → (t'.staged.map Prod.fst).Nodup

theorem Reaches.refl (t : Transaction) : t.Reaches t t.writable := ⟨rfl, rfl, id⟩

theorem Reaches.trans {t t' t'' : Transaction} {v w : View} (h : t.Reaches t' v)
    (h' : t'.Reaches t'' w) : t.Reaches t'' w :=
  ⟨h'.base.trans h.base, h'.view, fun hn => h'.names_nodup (h.names_nodup hn)⟩

theorem reaches_put (t : Transaction) (name : String) (table : Table) :
    t.Reaches (t.put name table) (Function.update t.writable name table) :=
  ⟨rfl, writable_put t name table, fun h => Tables.keys_set_nodup h⟩

end Transaction

/-- Updating a table stages what it becomes, where that succeeds. -/
theorem outcome_update (name : String) (f : Table → Except StoreError Table) (t : Transaction) :
    match f (t.writable name) with
    | .ok table => ∃ t', outcome (Transact.update name f) t = (.ok (), t') ∧
        t.Reaches t' (Function.update t.writable name table)
    | .error e => ∃ t', outcome (Transact.update name f) t = (.error e, t') ∧
        t.Reaches t' t.writable := by
  have hself := t.reaches_put name (t.writable name)
  rw [Function.update_eq_self] at hself
  simp only [Transact.update, Outcome.bind_eq, Outcome.get_eq, Outcome.modify_eq, Outcome.lift_eq]
  cases f (t.writable name) with
  | error e => exact ⟨_, rfl, hself⟩
  | ok table =>
    refine ⟨_, rfl, hself.trans ?_⟩
    have hput := (t.put name (t.writable name)).reaches_put name table
    rwa [Transaction.writable_put, Function.update_idem] at hput

theorem outcome_locate (m : Model) (i : Identity) (t : Transaction) :
    outcome (Transact.locate m i) t = ((t.writable m.typeName).find m i, t) := by
  simp only [Transact.locate, Outcome.bind_eq, Outcome.get_eq, Transaction.locate_table, Table.find]
  cases (t.writable m.typeName).locate i <;> rfl

/-- Resolving a reference reads a row and stages nothing. -/
theorem outcome_resolve (m : Model) (i : Identity) (t : Transaction) :
    outcome (Transact.resolve m i) t =
      ((do
        let n ← (t.writable m.typeName).find m i
        (t.writable m.typeName).read m n), t) := by
  simp only [Transact.resolve, Outcome.bind_eq, outcome_locate]
  cases (t.writable m.typeName).find m i with
  | error e => rfl
  | ok n =>
    simp only [Outcome.get_eq, Transaction.row_table, Table.read, bind, Except.bind]
    cases (t.writable m.typeName).row? n with
    | none => rfl
    | some values => exact Outcome.lift_eq (m.fromValues values) t

theorem outcome_objects (m : Model) (t : Transaction) :
    outcome (Transact.objects m) t = ((t.writable m.typeName).records m, t) := by
  simp only [Transact.objects, Outcome.bind_eq, Outcome.get_eq, Transaction.writable]
  cases t.table? m.typeName with
  | none => rfl
  | some table => exact Outcome.lift_eq ..

theorem ok_bind {ε α β : Type} (a : α) (f : α → Except ε β) : (Except.ok a >>= f) = f a := rfl

/-- What an operation answers and shows depends only on the table that it works on. -/
theorem outcome_perform (a : Access) (t : Transaction) :
    ∃ t', outcome a.perform t = ((a.onView t.writable).1, t') ∧
      t.Reaches t' (a.onView t.writable).2 := by
  cases a with
  | create m values =>
    simp only [Access.perform, Access.Reply, Transact.create, Outcome.bind_eq, Outcome.lift_eq,
      Access.onView, Access.attempt, Access.typeName, Access.model]
    cases m.fromValues values with
    | error e => exact ⟨t, rfl, .refl t⟩
    | ok r =>
      simp only [ok_bind]
      cases r.toValues with
      | error e => exact ⟨t, rfl, .refl t⟩
      | ok row =>
        have h := outcome_update m.typeName (·.insert m.typeName m.primaryKey? row) t
        simp only [ok_bind]
        cases htable : (t.writable m.typeName).insert m.typeName m.primaryKey? row <;>
          rw [htable] at h <;> obtain ⟨t', ht', hreaches⟩ := h <;> rw [ht'] <;>
          exact ⟨t', rfl, hreaches⟩
  | add m r =>
    simp only [Access.perform, Access.Reply, Transact.add, Outcome.bind_eq, Outcome.lift_eq,
      Access.onView, Access.attempt, Access.typeName, Access.model]
    cases r.toValues with
    | error e => exact ⟨t, rfl, .refl t⟩
    | ok row =>
      have h := outcome_update m.typeName (·.insert m.typeName m.primaryKey? row) t
      simp only [ok_bind]
      cases htable : (t.writable m.typeName).insert m.typeName m.primaryKey? row <;>
        rw [htable] at h <;> obtain ⟨t', ht', hreaches⟩ := h <;> rw [ht'] <;>
        exact ⟨t', rfl, hreaches⟩
  | resolve m i =>
    simp only [Access.perform, Access.Reply, outcome_resolve, Access.onView, Access.attempt,
      Access.typeName, Access.model]
    cases (t.writable m.typeName).find m i with
    | error e => exact ⟨t, rfl, .refl t⟩
    | ok n =>
      simp only [ok_bind]
      cases (t.writable m.typeName).read m n with
      | error e => exact ⟨t, rfl, .refl t⟩
      | ok r =>
        refine ⟨t, rfl, ?_⟩
        simp only [ok_bind, pure, Except.pure, Function.update_eq_self]
        exact .refl t
  | modify m i change =>
    simp only [Access.perform, Access.Reply, Transact.modifyRecord, Outcome.bind_eq,
      Outcome.lift_eq, outcome_locate, outcome_resolve, Access.onView, Access.attempt,
      Access.typeName, Access.model]
    cases hn : (t.writable m.typeName).find m i with
    | error e => exact ⟨t, rfl, .refl t⟩
    | ok n =>
      simp only [hn, ok_bind]
      cases (t.writable m.typeName).read m n with
      | error e => exact ⟨t, rfl, .refl t⟩
      | ok old =>
        simp only [ok_bind]
        cases (change old).toValues with
        | error e => exact ⟨t, rfl, .refl t⟩
        | ok row =>
          have h := outcome_update m.typeName (·.replace m.typeName m.primaryKey? n row) t
          simp only [ok_bind]
          cases htable : (t.writable m.typeName).replace m.typeName m.primaryKey? n row <;>
            rw [htable] at h <;> obtain ⟨t', ht', hreaches⟩ := h <;> rw [ht'] <;>
            exact ⟨t', rfl, hreaches⟩
  | delete m i =>
    simp only [Access.perform, Access.Reply, Transact.delete, Outcome.bind_eq, outcome_locate,
      Access.onView, Access.attempt, Access.typeName, Access.model]
    cases (t.writable m.typeName).find m i with
    | error e => exact ⟨t, rfl, .refl t⟩
    | ok n => exact outcome_update m.typeName (fun table => .ok (table.remove m.primaryKey? n)) t
  | objects m =>
    simp only [Access.perform, Access.Reply, outcome_objects, Access.onView, Access.attempt,
      Access.typeName, Access.model]
    cases (t.writable m.typeName).records m with
    | error e => exact ⟨t, rfl, .refl t⟩
    | ok rs =>
      refine ⟨t, rfl, ?_⟩
      simp only [ok_bind, pure, Except.pure, Function.update_eq_self]
      exact .refl t

/-- A script runs as it does on the tables that its transaction shows. -/
theorem Script.outcome_run {α : Type} (script : Script α) (t : Transaction) :
    ∃ t', outcome script.run t = ((script.onView t.writable).1, t') ∧
      t.Reaches t' (script.onView t.writable).2 := by
  induction script generalizing t with
  | finish result => exact ⟨t, rfl, .refl t⟩
  | call a next ih =>
    obtain ⟨t₁, h₁, hreaches₁⟩ := outcome_perform a t
    obtain ⟨t₂, h₂, hreaches₂⟩ := ih (a.onView t.writable).1 t₁
    have hrun : outcome (Script.call a next).run t =
        outcome (next (outcome a.perform t).1).run (outcome a.perform t).2 := rfl
    rw [hreaches₁.view] at h₂ hreaches₂
    refine ⟨t₂, ?_, hreaches₁.trans hreaches₂⟩
    rw [hrun, h₁, h₂]
    rfl

end RecordStore
