import RecordStore.Proofs.Model.PrimaryKey
import RecordStore.Proofs.Store.Lineage
import RecordStore.Proofs.Store.ListStore
import RecordStore.Proofs.Store.Recognition

/-!
Primary keys in a store. Where the models of a type name have one key field and store its values in
one form, a record is refused just where the key that it is read to have is that of a stored row, no
two rows have one key, and a row keeps its key for as long as it is there.
-/
namespace RecordStore

open Table (keyText)

variable {m : Model} {f : ModelField}

theorem Model.sharesKey_of_alongside {m' : Model} (h : m.Alongside m') : m.SharesKey m' := by
  refine ⟨h.1, fun hname => ?_⟩
  obtain rfl := h.2 hname
  exact ⟨rfl, fun _ hrow => keepsKey_of_stores h.1 hrow⟩

/-- Rows that are found by the key of a model, which they store in the form that it gives it. -/
structure Table.Keyed (m : Model) (t : Table) : Prop where
  ordered : t.Ordered
  indexed : t.Indexed m.primaryKey?
  proper : ∀ row ∈ t.values, row.Proper
  keeps : ∀ row ∈ t.values, m.KeepsKey row

namespace Table.Keyed

variable {t : Table} {row : Values} {d : Data}

/-- The index has the text of a key just where some row has the key. -/
theorem isSome_lookup_iff (h : t.Keyed m) (hf : m.keyField? = some f) (hproper : row.Proper)
    (hkeeps : m.KeepsKey row) (hd : m.key? row = some d) :
    (t.keys.lookup (keyText row f.name)).isSome = true ↔
      ∃ old ∈ t.values, m.key? old = m.key? row := by
  have hfield : m.primaryKey? = some f.name := Model.primaryKey_eq_some.mpr ⟨f, hf, rfl⟩
  have hholds : t.Holds (some f.name) t.values := ⟨h.ordered, hfield ▸ h.indexed, rfl⟩
  rw [hholds.isSome_lookup_keys, List.any_eq_true]
  constructor
  · rintro ⟨old, hold, htext⟩
    exact ⟨old, hold,
      Model.key_eq_of_keyText hf (h.proper old hold) hproper (beq_iff_eq.mp htext)⟩
  · rintro ⟨old, hold, hkey⟩
    exact ⟨old, hold, beq_iff_eq.mpr
      (Model.keyText_eq_of_key hf (h.keeps old hold) hkeeps (hkey.trans hd) hkey)⟩

/-- A row is refused as a duplicate where its key is taken, and stored where it is not. -/
theorem insert_of_key (h : t.Keyed m) (hm : m.Sound) (hf : m.keyField? = some f)
    (hstores : m.Stores row) (hd : m.key? row = some d) :
    ((∃ old ∈ t.values, m.key? old = m.key? row) → t.insert m.typeName m.primaryKey? row =
      .error (.duplicatePrimaryKey m.typeName (keyText row f.name))) ∧
    ((¬∃ old ∈ t.values, m.key? old = m.key? row) →
      ∃ t', t.insert m.typeName m.primaryKey? row = .ok t') := by
  have hiff := h.isSome_lookup_iff hf (Model.proper_of_stores hm hstores)
    (Model.keepsKey_of_stores hm hstores) hd
  rw [← hiff, Model.primaryKey_eq_some.mpr ⟨f, hf, rfl⟩]
  constructor
  · intro htaken
    simp only [Table.insert, if_pos htaken]
  · intro hfree
    simp only [Table.insert, if_neg hfree]
    exact ⟨_, rfl⟩

/-- No two rows have one key. -/
theorem keys_pairwise (h : t.Keyed m) (hf : m.keyField? = some f) :
    t.values.Pairwise fun a b => ∀ d, m.key? a = some d → m.key? b ≠ some d := by
  have hindexed := h.indexed
  rw [Model.primaryKey_eq_some.mpr ⟨f, hf, rfl⟩] at hindexed
  obtain ⟨hkeys, hnodup⟩ := hindexed
  have htexts : (t.values.map (keyText · f.name)).Nodup := by
    rw [hkeys, List.map_map] at hnodup
    rw [values, List.map_map]
    exact hnodup
  refine (List.pairwise_map.mp htexts).imp_of_mem fun ha hb hne d hda hdb => hne ?_
  exact Model.keyText_eq_of_key hf (h.keeps _ ha) (h.keeps _ hb) hda (hda.trans hdb.symm)

end Table.Keyed

/-- What is read as a key in a version of a table is read as the same key in those that come of
it. -/
theorem Table.Descends.key_eq {t t' : Table} (h : t.Descends m.primaryKey? t')
    (hf : m.keyField? = some f) (ht : t.Keyed m) (ht' : t'.Keyed m) {n : Nat}
    {before after : Values} (hbefore : (n, before) ∈ t.rows) (hafter : (n, after) ∈ t'.rows) :
    m.key? after = m.key? before := by
  have htext := h.key f.name (Model.primaryKey_eq_some.mpr ⟨f, hf, rfl⟩) n before after hbefore
    hafter
  exact (Model.key_eq_of_keyText hf (ht.proper _ (List.mem_map_of_mem hbefore))
    (ht'.proper _ (List.mem_map_of_mem hafter)) htext).symm

theorem View.keyed {v : View} (hv : v.Sound m.SharesKey)
    (hi : (v m.typeName).Indexed m.primaryKey?) : (v m.typeName).Keyed m where
  ordered := (hv m.typeName).ordered
  indexed := hi
  proper := fun _ hrow => (hv m.typeName).proper (fun _ hm => hm.1) hrow
  keeps := fun row hrow => by
    obtain ⟨m', hm', hname, hstores⟩ := (hv m.typeName).stored row hrow
    exact (hm'.2 hname).2 row hstores

namespace Transaction

def HasKey (t : Transaction) (m : Model) (key? : Option Data) : Prop :=
  ∃ row ∈ (t.writable m.typeName).values, m.key? row = key?

/-- What holds of keys at one point of a transaction. -/
structure TellsKeysApart (m : Model) (field : String) (t : Transaction) : Prop where
  /-- Creating a record is refused as a duplicate just where the key that it is read to have is
  there, in whatever form it was given. -/
  create : ∀ values r row, values.Proper → m.fromValues values = .ok r → r.toValues = .ok row →
    (t.HasKey m (m.key? values) → (outcome (Transact.create m values) t).1 =
      .error (.duplicatePrimaryKey m.typeName (keyText row field))) ∧
    (¬t.HasKey m (m.key? values) → (outcome (Transact.create m values) t).1 = .ok r)
  /-- And so is adding a record that can be read back. -/
  add : ∀ r row, m.Admits r → r.toValues = .ok row → m.CanRead row →
    (t.HasKey m (m.key? row) → (outcome (Transact.add m r) t).1 =
      .error (.duplicatePrimaryKey m.typeName (keyText row field))) ∧
    (¬t.HasKey m (m.key? row) → (outcome (Transact.add m r) t).1 = .ok ())
  distinct : (t.writable m.typeName).values.Pairwise fun a b =>
    ∀ d, m.key? a = some d → m.key? b ≠ some d

/-- An operation that does nothing but store a row answers as its insertion does. -/
theorem answer_of_attempt (hm : m.Sound) (hf : m.keyField? = some f) {t : Transaction}
    (ht : (t.writable m.typeName).Keyed m) {row : Values} (hstores : m.Stores row) {d : Data}
    (hd : m.key? row = some d) {a : Access} (hname : a.typeName = m.typeName) {reply : a.Reply}
    (h : a.attempt (t.writable m.typeName) = do
      return (reply, ← (t.writable m.typeName).insert m.typeName m.primaryKey? row)) :
    (t.HasKey m (m.key? row) → (outcome a.perform t).1 =
      .error (.duplicatePrimaryKey m.typeName (keyText row f.name))) ∧
    (¬t.HasKey m (m.key? row) → (outcome a.perform t).1 = .ok reply) := by
  obtain ⟨t', houtcome, -⟩ := outcome_perform a t
  obtain ⟨hrefused, hstored⟩ := ht.insert_of_key hm hf hstores hd
  rw [houtcome]
  simp only [Access.onView, hname, h]
  constructor
  · intro htaken
    rw [hrefused htaken]
    rfl
  · intro hfree
    obtain ⟨table, htable⟩ := hstored hfree
    rw [htable]
    rfl

/-- On a keyed table every transaction tells keys apart, at each of its points. -/
theorem tellsKeysApart (hm : m.Sound) (hf : m.keyField? = some f) {t : Transaction}
    (ht : (t.writable m.typeName).Keyed m) : t.TellsKeysApart m f.name where
  create := by
    intro values r row hproper hr hrow
    -- the values given and the row are read as one record, so they have one key
    have hkey := Model.key_of_fromValues hm hf (Model.fromValues_toValues hm hproper hr hrow)
    rw [Model.key_of_fromValues hm hf hr, ← hkey]
    have hstores : m.Stores row := ⟨r, (Model.admits_of_fromValues hm hproper hr).1, hrow⟩
    refine answer_of_attempt hm hf ht hstores hkey (a := .create m values) rfl ?_
    simp only [Access.attempt, hr, hrow, ok_bind]
  add := by
    intro r row hadmits hrow hread
    obtain ⟨r', hr'⟩ := hread
    have hkey := Model.key_of_fromValues hm hf hr'
    refine answer_of_attempt hm hf ht ⟨r, hadmits, hrow⟩ hkey (a := .add m r) rfl ?_
    simp only [Access.attempt, hrow, ok_bind]
  distinct := ht.keys_pairwise hf

end Transaction

def Table.KeepsKeys (m : Model) (t t' : Table) : Prop :=
  ∀ n before after, (n, before) ∈ t.rows → (n, after) ∈ t'.rows → m.key? after = m.key? before

theorem Script.onView_keyed {α : Type} {script : Script α} (hscript : script.Typed m.SharesKey)
    {v : View} (hv : v.Sound m.SharesKey) (hi : (v m.typeName).Indexed m.primaryKey?) :
    (script.onView v).2.Sound m.SharesKey ∧
      ((script.onView v).2 m.typeName).Indexed m.primaryKey? :=
  onView_invariant (P := fun v => (v m.typeName).Indexed m.primaryKey?) (fun _ h => h.1)
    (fun _ _ ha hv hi => Access.onView_indexed (fun _ h => h.1) (fun _ h hname => (h.2 hname).1)
      ha hv hi) script v hscript hv hi

namespace Store

/-- At any point of a transaction on a store that models with the key of a given one have written
to, keys tell its records apart; and no operation, here or later, changes the key of a row. -/
theorem primaryKeys_unique (hm : m.Sound) {field : String} (hfield : m.primaryKey? = some field)
    (identifier : String) {events : List Event} (hevents : ∀ e ∈ events, e.Typed m.SharesKey)
    {α : Type} {body : Script α} (hbody : body.Typed m.SharesKey) :
    let s := after { identifier := identifier } events
    let t := (outcome body.run s.begin).2
    t.TellsKeysApart m field ∧
    (∀ {β : Type} (more : Script β), more.Typed m.SharesKey →
      Table.KeepsKeys m (t.writable m.typeName)
        ((outcome more.run t).2.writable m.typeName)) ∧
    ∀ more : List Event, (∀ e ∈ more, e.Typed m.SharesKey) →
      Table.KeepsKeys m (s.tables.table m.typeName)
        ((s.after more).tables.table m.typeName) := by
  intro s t
  obtain ⟨f, hf, rfl⟩ := Model.primaryKey_eq_some.mp hfield
  have hkeep {m' : Model} (h : m.SharesKey m') (hname : m'.typeName = m.typeName) :
      ∀ field, m.primaryKey? = some field → m'.primaryKey? = some field :=
    fun _ hfield => (h.2 hname).1.trans hfield
  have hs : View.Sound m.SharesKey s.tables.table :=
    after_sound (fun _ h => h.1) hevents (sound_empty _ identifier)
  have hi : (s.tables.table m.typeName).Indexed m.primaryKey? :=
    after_indexed (fun _ h => h.1) (fun _ h hname => (h.2 hname).1) hevents
      (sound_empty _ identifier) Table.indexed_empty
  have ht : t.writable = (body.onView s.tables.table).2 := by
    obtain ⟨t', hrun, hreaches⟩ := body.outcome_run s.begin
    rw [← begin_writable, ← hreaches.view]
    exact congrArg (fun result => result.2.writable) hrun
  obtain ⟨hv, hvi⟩ := Script.onView_keyed hbody hs hi
  rw [← ht] at hv hvi
  refine ⟨Transaction.tellsKeysApart hm hf (View.keyed hv hvi), ?_, ?_⟩
  · intro β more hmore n before after hbefore hafter
    obtain ⟨t', hrun, hreaches⟩ := more.outcome_run t
    rw [hrun, hreaches.view] at hafter
    obtain ⟨hv', hvi'⟩ := Script.onView_keyed hmore hv hvi
    have hdescends := Script.onView_descends (fun _ h => h.1) (fun _ => hkeep) hmore hv
    exact hdescends.key_eq hf (View.keyed hv hvi) (View.keyed hv' hvi') hbefore hafter
  · intro more hmore n before after hbefore hafter
    have hs' := after_sound (fun _ h => h.1) hmore hs
    have hi' := after_indexed (fun _ h => h.1) (fun _ h hname => (h.2 hname).1) hmore hs hi
    have hdescends := after_descends (fun _ h => h.1) (fun _ => hkeep) hmore hs
    exact hdescends.key_eq hf (View.keyed hs hi) (View.keyed hs' hi') hbefore hafter

def accountHistory : List Event := [
  .write (.volatile "db") (.call (.add .rawAccount ⟨[("id", .json (.string "x"))], []⟩)
    fun _ => .finish (.ok ())),
  .write (.volatile "db") (.call (.create .account
      [("id", .string "y"), ("owner", .string "o"), ("balance", .integer 1)])
    fun _ => .finish (.ok ()))]

/-- Accounts stored as maps of values have the key of accounts, where it can be read at all. -/
theorem sharesKey_rawAccount : Model.account.SharesKey .rawAccount := by
  refine ⟨Model.sound_rawAccount, fun _ => ⟨rfl, fun row _ f hf d hd => ?_⟩⟩
  cases hf
  have hd := (Model.key_eq_some (m := .account) rfl).mp hd
  show d.encode = .ok ((row.get? "id").getD .null)
  revert hd
  show Data.decode ((row.get? "id").getD .null) .string = .ok d → _
  generalize (row.get? "id").getD .null = v
  intro hd
  cases v with
  | string s =>
    cases hd
    rfl
  | _ => cases hd

theorem typed_accountHistory : ∀ e ∈ accountHistory, e.Typed Model.account.SharesKey := by
  have hself : Model.account.SharesKey .account :=
    Model.sharesKey_of_alongside ⟨Model.sound_account, fun _ => rfl⟩
  intro e he
  rcases List.mem_cons.mp he with rfl | he
  · refine ⟨⟨sharesKey_rawAccount, by decide, fun e he => ?_⟩, fun _ _ => trivial⟩
    obtain rfl := List.mem_singleton.mp he
    exact ⟨_, rfl, trivial⟩
  · obtain rfl := List.mem_singleton.mp he
    exact ⟨⟨hself, by decide, trivial, trivial, rfl, trivial⟩, fun _ _ => trivial⟩

/-- An account with the key of one that is there is refused. -/
theorem primaryKeys_unique_accountHistory :
    Model.account.Sound ∧ (∀ e ∈ accountHistory, e.Typed Model.account.SharesKey) ∧
    (outcome (Transact.create .account
        [("id", .string "x"), ("owner", .string "p"), ("balance", .integer 0)])
      (after { identifier := "db" } accountHistory).begin).1 =
        .error (.duplicatePrimaryKey "Account" "\"x\"") := by
  have hbody : Script.Typed Model.account.SharesKey (.finish (.ok ())) := trivial
  obtain ⟨htells, -, -⟩ :=
    primaryKeys_unique Model.sound_account rfl "db" typed_accountHistory hbody
  have hproper : Values.Proper
      [("id", .string "x"), ("owner", .string "p"), ("balance", .integer 0)] :=
    ⟨by decide, trivial, trivial, rfl, trivial⟩
  refine ⟨Model.sound_account, typed_accountHistory, ?_⟩
  exact (htells.create _ _ _ hproper rfl rfl).1 ⟨_, List.mem_cons_self .., rfl⟩

def gaugeHistory : List Event := [
  .write (.volatile "db") (.call
    (.create .gauge [("level", .float (.zero false)), ("label", .null)])
    fun _ => .finish (.ok ()))]

def minusZero : Values := [("level", .float (.zero true)), ("label", .null)]

def ownerHistory : List Event := [
  .write (.volatile "db") (.call (.create .account
    [("id", .string "x"), ("owner", .string "o"), ("balance", .integer 1)])
    fun _ => .finish (.ok ()))]

def newerAccount : Values := [("id", .string "z"), ("owner", .string "x"), ("balance", .null)]

theorem typed_gaugeHistory : ∀ e ∈ gaugeHistory, e.Typed Model.gauge.Alongside := by
  have hgauge : Model.gauge.Sound := Model.sound_of_ofName "Gauge" rfl
  intro e he
  obtain rfl := List.mem_singleton.mp he
  exact ⟨⟨⟨hgauge, fun _ => rfl⟩, by decide, rfl, trivial, trivial⟩, fun _ _ => trivial⟩

theorem typed_ownerHistory : ∀ e ∈ ownerHistory, e.Typed Model.Sound := by
  intro e he
  obtain rfl := List.mem_singleton.mp he
  exact ⟨⟨Model.sound_account, by decide, trivial, trivial, rfl, trivial⟩, fun _ _ => trivial⟩

def entriesHistory : List Event := [
  .write (.volatile "db") (.call
    (.create .rawAccount [("id", .object [("a", .null), ("b", .null)])])
    fun _ => .finish (.ok ()))]

def otherOrder : Values := [("id", .object [("b", .null), ("a", .null)])]

theorem typed_entriesHistory : ∀ e ∈ entriesHistory, e.Typed Model.rawAccount.Alongside := by
  intro e he
  obtain rfl := List.mem_singleton.mp he
  exact ⟨⟨⟨Model.sound_rawAccount, fun _ => rfl⟩, by decide, ⟨by decide, trivial, trivial, trivial⟩,
    trivial⟩, fun _ _ => trivial⟩

def EqualKeys : Data → Data → Prop
  | .float x, .float y => x.equal y = true
  | .json x, .json y => x.same y = true
  | x, y => x = y

/-- That creating a record is refused as a duplicate just where a stored one has an equal key. -/
def RefusesEqualKeys (m : Model) (field : String) (models : Model → Prop) : Prop :=
  ∀ (events : List Event) (values : Values) (r : Record) (row : Values),
    (∀ e ∈ events, e.Typed models) → values.Proper → m.fromValues values = .ok r →
    r.toValues = .ok row →
    ((outcome (Transact.create m values) (after { identifier := "db" } events).begin).1 =
      .error (.duplicatePrimaryKey m.typeName (keyText row field)) ↔
    ∃ old ∈ ((after { identifier := "db" } events).tables.table m.typeName).values, ∃ x y,
      m.key? old = some x ∧ m.key? values = some y ∧ EqualKeys x y)

/-- It is not so of zero and minus zero, which are the same number; nor of objects with their
entries in another order; nor where a model with another key has the type name. -/
theorem not_refusesEqualKeys :
    ¬RefusesEqualKeys .gauge "level" Model.gauge.Alongside ∧
    ¬RefusesEqualKeys .rawAccount "id" Model.rawAccount.Alongside ∧
    ¬RefusesEqualKeys .accountV2 "owner" Model.Sound := by
  refine ⟨fun h => ?_, fun h => ?_, fun h => ?_⟩
  · have hproper : minusZero.Proper := ⟨by decide, rfl, trivial, trivial⟩
    have herror := (h gaugeHistory minusZero _ _ typed_gaugeHistory hproper rfl rfl).mpr
      ⟨_, List.mem_cons_self .., .float (.zero false), .float (.zero true), rfl, rfl, rfl⟩
    have hcreated : (outcome (Transact.create .gauge minusZero)
          (after { identifier := "db" } gaugeHistory).begin).1 =
        .ok ⟨[("level", .float (.zero true)), ("label", .absent)], []⟩ := rfl
    exact nomatch hcreated.symm.trans herror
  · have hproper : otherOrder.Proper := ⟨by decide, ⟨by decide, trivial, trivial, trivial⟩, trivial⟩
    have herror := (h entriesHistory otherOrder _ _ typed_entriesHistory hproper rfl rfl).mpr
      ⟨_, List.mem_cons_self .., .json (.object [("a", .null), ("b", .null)]),
        .json (.object [("b", .null), ("a", .null)]), rfl, rfl, rfl⟩
    have hcreated : (outcome (Transact.create .rawAccount otherOrder)
          (after { identifier := "db" } entriesHistory).begin).1 =
        .ok ⟨[("id", .json (.object [("b", .null), ("a", .null)]))], []⟩ := rfl
    exact nomatch hcreated.symm.trans herror
  · have hrefused : (outcome (Transact.create .accountV2 newerAccount)
          (after { identifier := "db" } ownerHistory).begin).1 =
        .error (.duplicatePrimaryKey "Account" "\"x\"") := rfl
    have hproper : newerAccount.Proper := ⟨by decide, trivial, trivial, trivial, trivial⟩
    obtain ⟨old, hold, x, y, hx, hy, hequal⟩ :=
      (h ownerHistory newerAccount _ _ typed_ownerHistory hproper rfl rfl).mp hrefused
    obtain rfl := List.mem_singleton.mp hold
    cases hx
    cases hy
    exact absurd (Data.string.inj hequal) (by decide)

end Store

end RecordStore
