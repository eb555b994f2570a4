import RecordStore.Proofs.Model.Changes
import RecordStore.Proofs.Store.History

/-!
Tables that several models write to. The index of a table has a row under the primary key of the
model that wrote it, so another model can find it there by what is another field to it. Where no
model of the type name writes rows that a given model could read but would not have written, this
does no harm to the given one: all that it can read are rows of its own, and what the index leads it
to is a row with the key that it looked for or one that it cannot read.
-/
namespace RecordStore

open Table (keyText)

namespace Model

/-- Sound models, among which none but a given one has its type name. -/
def Alongside (m m' : Model) : Prop := m'.Sound ∧ (m'.typeName = m.typeName → m' = m)

/-- Sound models that, where they have the type name of a given one, are that model itself or store
no row that it can read. -/
def Apart (m m' : Model) : Prop :=
  m'.Sound ∧ (m'.typeName = m.typeName → m' = m ∨ ∀ row, m'.Stores row → ¬m.CanRead row)

/-- Sound models that have the primary key of a given one where they have its type name. -/
def SharesIndex (m m' : Model) : Prop :=
  m'.Sound ∧ (m'.typeName = m.typeName → m'.primaryKey? = m.primaryKey?)

end Model

def FieldType.Apart (t u : FieldType) : Prop :=
  ∀ (d : Data) (v : Json), d.Fits u → d.encode = .ok v → ¬Data.CanDecode v t

namespace Model

variable {m m' : Model} {row : Values}

/-- What a model stores under the name of a field is the stored form of a value of its type. -/
theorem field_of_stores (hm : m.Sound) (hform : m.form = .fields) (h : m.Stores row)
    {f : ModelField} (hf : f ∈ m.fields) :
    ∃ (d : Data) (v : Json), d.Fits f.type ∧ d.encode = .ok v ∧ row.get? f.name = some v := by
  obtain ⟨r, hr, hrow⟩ := h
  have hencode := Record.toValues_eq_ok.mp hrow
  have hnames := names_nodup_of_admits hm hr
  simp only [Admits, hform] at hr
  obtain ⟨e, he, hname, hfits⟩ := exists_of_forall₂ hr hf
  obtain ⟨v, hv⟩ := encode_of_mem hencode he
  refine ⟨e.2, v, hfits, hv, ?_⟩
  rw [← hname, get_of_encodeFields hencode, lookup_of_mem hnames he]
  simp [hv, Except.toOption]

/-- Models are apart if their fields of one name are. -/
theorem apart_of_field (hm' : m'.Sound) (hform : m.form = .fields) (hform' : m'.form = .fields)
    {f f' : ModelField} (hf : f ∈ m.fields) (hf' : f' ∈ m'.fields) (hname : f'.name = f.name)
    (h : f.type.Apart f'.type) : m.Apart m' := by
  refine ⟨hm', fun _ => .inr fun row hstores hread => ?_⟩
  obtain ⟨d, v, hfits, hv, hget⟩ := field_of_stores hm' hform' hstores hf'
  simp only [CanRead, fromValues, hform, Data.exists_map_ok, exists_readFields_ok] at hread
  have hcan := hread f hf
  rw [← hname, hget] at hcan
  exact h d v hfits hv hcan

end Model

namespace FieldType

/-- No stored value is both a whole number and an optional text. -/
theorem apart_i64_optionString : i64.Apart (.option .string) := by
  intro d v hfits hv hcan
  have hv : v = .null ∨ ∃ s, v = .string s := by
    cases d with
    | absent => exact .inl (Except.ok.inj hv).symm
    | present d =>
      obtain ⟨u, hu, hd⟩ := hfits
      cases hu
      obtain ⟨s, rfl⟩ := Data.eq_string_of_fits hd
      exact .inr ⟨s, (Except.ok.inj hv).symm⟩
    | variant name content => cases content <;> simp [Data.Fits, unbox] at hfits
    | _ => simp [Data.Fits, unbox] at hfits
  obtain ⟨n, hn⟩ := hcan
  rcases hv with rfl | ⟨s, rfl⟩
  · cases hn
  · cases hn

theorem apart_optionString_i64 : (option string).Apart i64 := by
  intro d v hfits hv hcan
  obtain ⟨n, rfl, -⟩ := Data.eq_integer_of_fits hfits
  obtain ⟨s, hs⟩ := hcan
  simp only [Data.encode, Data.integerJson] at hv
  split at hv
  · cases hv
    cases hs
  · cases hv

end FieldType

namespace Model

/-- The balances of accounts are numbers, those of the newer version texts. -/
theorem apart_account_accountV2 : account.Apart accountV2 ∧ accountV2.Apart account := by
  constructor
  · exact apart_of_field sound_accountV2 rfl rfl (.tail _ (.tail _ (.head _)))
      (.tail _ (.tail _ (.head _))) rfl FieldType.apart_i64_optionString
  · exact apart_of_field sound_account rfl rfl (.tail _ (.tail _ (.head _)))
      (.tail _ (.tail _ (.head _))) rfl FieldType.apart_optionString_i64

end Model

namespace Table

/-- An index that leads to rows that are there or were, and of those that a model can read, to the
ones with the key that is looked for. -/
structure Leads (m : Model) (t : Table) : Prop where
  below : ∀ key n, t.keys.lookup key = some n → n < t.nextRow
  key : ∀ field, m.primaryKey? = some field → ∀ key n row, t.keys.lookup key = some n →
    (n, row) ∈ t.rows → m.CanRead row → keyText row field = key

/-- A table in which a model finds, of the rows that it can read, the ones with the keys that it
looks for, and can read none that it would not have stored. -/
structure Recognizes (m : Model) (t : Table) : Prop extends Leads m t where
  own : ∀ row ∈ t.values, m.CanRead row → m.Stores row

variable {m m' : Model} {t t' : Table} {typeName : String} {primaryKey? : Option String}
  {new : Values}

theorem leads_empty : Leads m {} := ⟨nofun, nofun⟩

/-- A new key in the index is that of the new row. -/
theorem lookup_insert (h : t.insert typeName primaryKey? new = .ok t') {key : String} {n : Nat}
    (hn : t'.keys.lookup key = some n) : t.keys.lookup key = some n ∨
      n = t.nextRow ∧ ∃ field, primaryKey? = some field ∧ keyText new field = key := by
  obtain ⟨-, -, hkeys⟩ := insert_eq_ok h
  cases primaryKey? with
  | none => exact .inl (hkeys ▸ hn)
  | some field =>
    rw [hkeys.2, List.lookup_append, Option.or_eq_some_iff] at hn
    rcases hn with hn | ⟨-, hn⟩
    · exact .inl hn
    · obtain ⟨hkey, rfl⟩ := Prod.mk.inj (List.mem_singleton.mp (mem_of_lookup hn))
      exact .inr ⟨rfl, field, rfl, hkey.symm⟩

/-- A row that the model can read has to be one that is indexed by its key. -/
theorem Leads.insert (h : t.Leads m) (ht : t.Ordered)
    (hinsert : t.insert typeName primaryKey? new = .ok t')
    (hnew : m.CanRead new → primaryKey? = m.primaryKey?) : t'.Leads m := by
  obtain ⟨hrows, hnext, -⟩ := insert_eq_ok hinsert
  constructor
  · intro key n hn
    rw [hnext]
    rcases lookup_insert hinsert hn with hn | ⟨rfl, -⟩
    · exact Nat.lt_succ_of_lt (h.below key n hn)
    · exact Nat.lt_succ_self _
  · intro field hfield key n row hn hrow hread
    rw [hrows] at hrow
    -- by their numbers, an old entry leads to no new row and the new entry to no old one
    rcases lookup_insert hinsert hn with hn | ⟨rfl, field', hfield', hkey⟩
    · rcases List.mem_append.mp hrow with hrow | hrow
      · exact h.key field hfield key n row hn hrow hread
      · obtain ⟨rfl, -⟩ := Prod.mk.inj (List.mem_singleton.mp hrow)
        exact absurd (h.below key _ hn) (Nat.lt_irrefl _)
    · rcases List.mem_append.mp hrow with hrow | hrow
      · exact absurd (ht.below _ hrow) (Nat.lt_irrefl _)
      · obtain ⟨-, rfl⟩ := Prod.mk.inj (List.mem_singleton.mp hrow)
        rw [hnew hread, hfield] at hfield'
        cases hfield'
        exact hkey

/-- A row that the model can read has to take the place of one that it can read. -/
theorem Leads.replace (h : t.Leads m) (ht : t.Ordered) {n : Nat}
    (hreplace : t.replace typeName primaryKey? n new = .ok t')
    (hnew : m.CanRead new → primaryKey? = m.primaryKey? ∧ ∃ r, t.read m n = .ok r) :
    t'.Leads m := by
  obtain ⟨k, old, hk, rfl, hkey⟩ := ht.replace_eq_ok hreplace
  refine ⟨h.below, fun field hfield key n' row hn hrow hread => ?_⟩
  rcases List.mem_or_eq_of_mem_set hrow with hrow | heq
  · exact h.key field hfield key n' row hn hrow hread
  · obtain ⟨rfl, rfl⟩ := Prod.mk.inj heq
    obtain ⟨rfl, hold⟩ := hnew hread
    rw [Table.read, ht.row_of_getElem hk] at hold
    rw [← hkey field hfield]
    exact h.key field hfield key n' old hn (List.mem_of_getElem? hk) hold

theorem lookup_remove {key : String} {n k : Nat}
    (hn : (t.remove primaryKey? k).keys.lookup key = some n) : t.keys.lookup key = some n := by
  unfold remove at hn
  split at hn
  · exact hn
  · cases primaryKey? with
    | none => exact hn
    | some field =>
      rw [lookup_filter] at hn
      split at hn
      · cases hn
      · exact hn

theorem Leads.remove (h : t.Leads m) (k : Nat) : (t.remove primaryKey? k).Leads m := by
  obtain ⟨hrows, hnext⟩ := remove_rows t primaryKey? k
  constructor
  · intro key n hn
    rw [hnext]
    exact h.below key n (lookup_remove hn)
  · intro field hfield key n row hn hrow hread
    exact h.key field hfield key n row (lookup_remove hn) (hrows.subset hrow) hread

/-- Steps of the model itself and of models whose rows it cannot read keep what it is led to. -/
theorem Leads.step (h : t.Leads m) (ht : t.Ordered)
    (hm' : m' = m ∨ ∀ row, m'.Stores row → ¬m.CanRead row) (hstep : Step m' t t') :
    t'.Leads m := by
  have hself (row : Values) (hrow : m'.Stores row) (hread : m.CanRead row) : m' = m :=
    hm'.resolve_right fun hnot => hnot row hrow hread
  cases hstep with
  | same => exact h
  | insert hrow hinsert =>
    exact h.insert ht hinsert fun hread => hself _ hrow hread ▸ rfl
  | replace hold hrow hreplace =>
    exact h.replace ht hreplace fun hread => hself _ hrow hread ▸ ⟨rfl, _, hold⟩
  | remove n => exact h.remove n

theorem Sound.own {t : Table} (h : t.Sound m.Apart m.typeName) {row : Values}
    (hrow : row ∈ t.values) (hread : m.CanRead row) : m.Stores row := by
  obtain ⟨m', hm', hname, hstores⟩ := h.stored row hrow
  rcases hm'.2 hname with rfl | hnot
  · exact hstores
  · exact absurd hread (hnot row hstores)

end Table

/-- The index of a model leads to its rows, whatever is done by models that are kept apart from
it. -/
theorem Access.onView_leads {m : Model} {a : Access} (ha : a.Typed m.Apart) {v : View}
    (hv : v.Sound m.Apart) (h : (v m.typeName).Leads m) :
    ((a.onView v).2 m.typeName).Leads m := by
  obtain ⟨-, t, hstep, hview⟩ := onView_step (fun _ h => h.1) ha hv
  rw [hview]
  by_cases hname : m.typeName = a.typeName
  · rw [hname, Function.update_self]
    rw [hname] at h
    exact h.step (hv a.typeName).ordered ((typed_model ha).2 hname.symm) hstep
  · rw [Function.update_of_ne hname]
    exact h

namespace Store

/-- A model recognizes its rows where all others that write to its table are apart from it. -/
theorem recognizes_after {m : Model} (identifier : String) {events : List Event}
    (hevents : ∀ e ∈ events, e.Typed m.Apart) :
    ((after { identifier := identifier } events).tables.table m.typeName).Recognizes m := by
  obtain ⟨hsound, hleads⟩ := after_invariant (P := fun v => (v m.typeName).Leads m)
    (fun _ h => h.1) (fun _ _ ha => Access.onView_leads ha) events { identifier := identifier }
    hevents (sound_empty _ identifier) Table.leads_empty
  exact ⟨hleads, fun row hrow hread => (hsound m.typeName).own hrow hread⟩

/-- The index of a table has the primary key of a model where all others that write to the table
have it too. -/
theorem indexed_after {m : Model} (identifier : String) {events : List Event}
    (hevents : ∀ e ∈ events, e.Typed m.SharesIndex) :
    ((after { identifier := identifier } events).tables.table m.typeName).Indexed m.primaryKey? :=
  after_indexed (fun _ h => h.1) (fun _ h => h.2) hevents (sound_empty _ identifier)
    Table.indexed_empty

end Store

end RecordStore
