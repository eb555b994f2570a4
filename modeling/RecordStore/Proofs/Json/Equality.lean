import RecordStore.Json.Basic
import Mathlib.Data.List.Nodup
import Mathlib.Data.List.Perm.Subperm

/-!
Entries looked up by their key, and the values that JSON text can express. Where no key is repeated
an entry that is there is the one found. Equality is an equivalence of the values that text can
express.
-/
namespace RecordStore

theorem mem_of_lookup {α β : Type} [BEq α] [LawfulBEq α] {key : α} {value : β}
    {entries : List (α × β)} (h : entries.lookup key = some value) : (key, value) ∈ entries := by
  obtain ⟨before, after, rfl, -⟩ := List.lookup_eq_some_iff.mp h
  simp

/-- Where keys differ, an entry is found under its key. -/
theorem lookup_of_mem {α β : Type} [BEq α] [LawfulBEq α] {key : α} {value : β}
    {entries : List (α × β)} (hkeys : (entries.map Prod.fst).Nodup) (h : (key, value) ∈ entries) :
    entries.lookup key = some value := by
  obtain ⟨before, after, rfl⟩ := List.append_of_mem h
  refine List.lookup_eq_some_iff.mpr ⟨before, after, rfl, ?_⟩
  intro p hp
  have hne : key ≠ p.1 := by
    rintro rfl
    have hd := (List.nodup_append.mp (by simpa using hkeys)).2.2
    exact hd p.1 (List.mem_map_of_mem hp) p.1 (List.mem_cons_self ..) rfl
  simpa using hne

theorem lookup_cons_ite {α β : Type} [DecidableEq α] (key : α) (entry : α × β)
    (entries : List (α × β)) : (entry :: entries).lookup key =
      if key = entry.1 then some entry.2 else entries.lookup key := by
  rw [List.lookup_cons]
  by_cases h : key = entry.1
  · simp [h]
  · rw [if_neg h, beq_false_of_ne h]

/-- Without the entries of one key the other keys are looked up as before. -/
theorem lookup_filter {α β : Type} [DecidableEq α] (entries : List (α × β)) (key other : α) :
    (entries.filter (·.1 != other)).lookup key =
      if key = other then none else entries.lookup key := by
  induction entries with
  | nil => simp
  | cons entry rest ih =>
    rw [lookup_cons_ite]
    by_cases hentry : entry.1 = other
    · rw [List.filter_cons_of_neg (by simp [hentry]), ih, hentry]
      split <;> rfl
    · rw [List.filter_cons_of_pos (by simp [hentry]), lookup_cons_ite, ih]
      by_cases hkey : key = entry.1
      · simp [hkey, hentry]
      · simp [hkey]

/-- Different keys that are all in a list of the same length at most are all of its keys. -/
theorem keys_subset_of_lookup {β : Type} {es fs : List (String × β)} (hes : (es.map Prod.fst).Nodup)
    (hlength : fs.length ≤ es.length) (h : ∀ e ∈ es, (fs.lookup e.1).isSome) :
    ∀ f ∈ fs, ∃ v, es.lookup f.1 = some v := by
  have hsub : es.map Prod.fst ⊆ fs.map Prod.fst := by
    intro k hk
    obtain ⟨e, he, rfl⟩ := List.mem_map.mp hk
    obtain ⟨w, hw⟩ := Option.isSome_iff_exists.mp (h e he)
    exact List.mem_map.mpr ⟨(e.1, w), mem_of_lookup hw, rfl⟩
  have hperm : (es.map Prod.fst).Perm (fs.map Prod.fst) :=
    (List.subperm_of_subset hes hsub).perm_of_length_le (by simpa using hlength)
  intro f hf
  obtain ⟨e, he, hkey⟩ := List.mem_map.mp (hperm.mem_iff.mpr (List.mem_map_of_mem hf))
  exact ⟨e.2, hkey ▸ lookup_of_mem hes he⟩

namespace Json

mutual

/-- Values that JSON text can express: finite numbers, integers of the stored range, and objects
without a repeated key. -/
def Proper : Json → Prop
  | .integer n => isStorable n = true
  | .float x => x.isFinite = true
  | .array items => ProperItems items
  | .object entries => (entries.map Prod.fst).Nodup ∧ ProperEntries entries
  | _ => True

def ProperItems : List Json → Prop
  | [] => True
  | v :: rest => v.Proper ∧ ProperItems rest

def ProperEntries : List (String × Json) → Prop
  | [] => True
  | (_, v) :: rest => v.Proper ∧ ProperEntries rest

end

theorem properItems_iff {items : List Json} : ProperItems items ↔ ∀ v ∈ items, v.Proper := by
  induction items with
  | nil => simp [ProperItems]
  | cons v rest ih => simp only [ProperItems, ih, List.forall_mem_cons]

theorem properEntries_iff {entries : List (String × Json)} :
    ProperEntries entries ↔ ∀ e ∈ entries, e.2.Proper := by
  induction entries with
  | nil => simp [ProperEntries]
  | cons e rest ih => simp only [ProperEntries, ih, List.forall_mem_cons]

theorem equal_self {x : Binary64} (h : x.isFinite = true) : x.equal x = true := by
  have hnan : x.isNaN = false := by
    simp only [Binary64.isFinite, bne_iff_ne, ne_eq] at h
    simp [Binary64.isNaN, h]
  simp [Binary64.equal, hnan]

mutual

/-- A value that text can express equals itself. -/
theorem same_self (v : Json) (h : v.Proper) : v.same v = true := by
  cases v with
  | null => rfl
  | bool b => simp [same]
  | integer n => simp [same]
  | float x => exact equal_self h
  | string s => simp [same]
  | array items => exact sameItems_self items h
  | object entries =>
    have hentries := sameEntries_self entries entries h.2 fun e he => lookup_of_mem h.1 he
    simpa [same] using hentries

theorem sameItems_self (items : List Json) (h : ProperItems items) :
    sameItems items items = true := by
  cases items with
  | nil => rfl
  | cons v rest => simp [sameItems, same_self v h.1, sameItems_self rest h.2]

theorem sameEntries_self (entries : List (String × Json)) (all : Values)
    (h : ProperEntries entries) (hall : ∀ e ∈ entries, all.get? e.1 = some e.2) :
    sameEntries entries all = true := by
  cases entries with
  | nil => rfl
  | cons e rest =>
    obtain ⟨key, v⟩ := e
    have hkey : all.get? key = some v := hall (key, v) (List.mem_cons_self ..)
    have hrest := sameEntries_self rest all h.2 fun e he => hall e (List.mem_cons_of_mem _ he)
    simp [sameEntries, hkey, same_self v h.1, hrest]

end

theorem sameEntries_iff {es : List (String × Json)} {fs : Values} :
    sameEntries es fs = true ↔ ∀ e ∈ es, ∃ w, fs.get? e.1 = some w ∧ e.2.same w = true := by
  induction es with
  | nil => simp [sameEntries]
  | cons e rest ih =>
    obtain ⟨k, v⟩ := e
    rw [List.forall_mem_cons, ← ih, sameEntries, Bool.and_eq_true]
    refine and_congr_left fun _ => ?_
    cases fs.get? k <;> simp

/-- Equal objects have equal values under the same keys. -/
theorem entries_of_same {es fs : List (String × Json)} (hv : (object es).Proper)
    (hw : (object fs).Proper) (h : (object es).same (object fs) = true) :
    es.length = fs.length ∧ (∀ e ∈ es, ∃ w, (e.1, w) ∈ fs ∧ e.2.same w = true) ∧
      ∀ f ∈ fs, ∃ v, (f.1, v) ∈ es ∧ v.same f.2 = true := by
  obtain ⟨hlength, hentries⟩ : es.length = fs.length ∧ sameEntries es fs = true := by
    simpa [same] using h
  have hall := sameEntries_iff.mp hentries
  have hkeys := keys_subset_of_lookup hv.1 (Nat.le_of_eq hlength.symm) fun e he => by
    obtain ⟨w, hw, -⟩ := hall e he
    exact Option.isSome_iff_exists.mpr ⟨w, hw⟩
  refine ⟨hlength, fun e he => ?_, fun f hf => ?_⟩
  · obtain ⟨w, hget, hsame⟩ := hall e he
    exact ⟨w, mem_of_lookup hget, hsame⟩
  · obtain ⟨v, hget⟩ := hkeys f hf
    have hmem : (f.1, v) ∈ es := mem_of_lookup hget
    obtain ⟨w, hw', hsame⟩ := hall _ hmem
    obtain rfl : w = f.2 := Option.some.inj (hw'.symm.trans (lookup_of_mem hw.1 hf))
    exact ⟨v, hmem, hsame⟩

theorem equal_iff {x y : Binary64} : x.equal y = true ↔
    x.isNaN = false ∧ y.isNaN = false ∧ (x = y ∨ x.isZero = true ∧ y.isZero = true) := by
  simp [Binary64.equal, and_assoc]

theorem equal_symm {x y : Binary64} (h : x.equal y = true) : y.equal x = true := by
  obtain ⟨hx, hy, h⟩ := equal_iff.mp h
  exact equal_iff.mpr ⟨hy, hx, h.imp Eq.symm And.symm⟩

theorem equal_trans {x y z : Binary64} (hxy : x.equal y = true) (hyz : y.equal z = true) :
    x.equal z = true := by
  obtain ⟨hx, -, hxy⟩ := equal_iff.mp hxy
  obtain ⟨-, hz, hyz⟩ := equal_iff.mp hyz
  refine equal_iff.mpr ⟨hx, hz, ?_⟩
  rcases hxy with rfl | hxy
  · exact hyz
  · rcases hyz with rfl | hyz
    · exact .inr hxy
    · exact .inr ⟨hxy.1, hyz.2⟩

mutual

/-- Equality of values that text can express turns round. -/
theorem same_symm (v w : Json) (hv : v.Proper) (hw : w.Proper) (h : v.same w = true) :
    w.same v = true := by
  cases v with
  | array items =>
    cases w <;> try exact absurd h Bool.false_ne_true
    case array others => exact sameItems_symm items others hv hw h
  | object es =>
    cases w <;> try exact absurd h Bool.false_ne_true
    case object fs =>
      obtain ⟨hlength, -, hentries⟩ := entries_of_same hv hw h
      have hback : sameEntries fs es = true := by
        refine sameEntries_iff.mpr fun f hf => ?_
        obtain ⟨v, hmem, hsame⟩ := hentries f hf
        exact ⟨v, lookup_of_mem hv.1 hmem, sameEntries_symm es hv.2 (f.1, v) hmem f.2
          (properEntries_iff.mp hw.2 f hf) hsame⟩
      simp [same, hlength, hback]
  | float x =>
    cases w <;> try exact absurd h Bool.false_ne_true
    exact equal_symm h
  | _ =>
    cases w <;> first | exact absurd h Bool.false_ne_true | (simp [same] at h ⊢; try exact h.symm)

theorem sameItems_symm (items others : List Json) (hv : ProperItems items)
    (hw : ProperItems others) (h : sameItems items others = true) :
    sameItems others items = true := by
  cases items with
  | nil =>
    cases others with
    | nil => rfl
    | cons w rest => exact absurd h Bool.false_ne_true
  | cons v items =>
    cases others with
    | nil => exact absurd h Bool.false_ne_true
    | cons w others =>
      obtain ⟨hhead, hrest⟩ := Bool.and_eq_true_iff.mp h
      exact Bool.and_eq_true_iff.mpr ⟨same_symm v w hv.1 hw.1 hhead,
        sameItems_symm items others hv.2 hw.2 hrest⟩

theorem sameEntries_symm (es : List (String × Json)) (hv : ProperEntries es) :
    ∀ e ∈ es, ∀ w : Json, w.Proper → e.2.same w = true → w.same e.2 = true := by
  cases es with
  | nil => exact fun _ h => absurd h List.not_mem_nil
  | cons first rest =>
    obtain ⟨k, v⟩ := first
    intro e he w hw h
    rcases List.mem_cons.mp he with rfl | he
    · exact same_symm v w hv.1 hw h
    · exact sameEntries_symm rest hv.2 e he w hw h

end

mutual

/-- Equality of values that text can express chains. -/
theorem same_trans (u v w : Json) (huv : u.same v = true) (hvw : v.same w = true) :
    u.same w = true := by
  cases u with
  | array items =>
    cases v <;> try exact absurd huv Bool.false_ne_true
    cases w <;> try exact absurd hvw Bool.false_ne_true
    case array.array middle others => exact sameItems_trans items middle others huv hvw
  | object es =>
    cases v <;> try exact absurd huv Bool.false_ne_true
    cases w <;> try exact absurd hvw Bool.false_ne_true
    case object.object fs gs =>
      obtain ⟨hlength, hentries⟩ : es.length = fs.length ∧ sameEntries es fs = true := by
        simpa [same] using huv
      obtain ⟨hlength', hentries'⟩ : fs.length = gs.length ∧ sameEntries fs gs = true := by
        simpa [same] using hvw
      have hboth : sameEntries es gs = true := by
        refine sameEntries_iff.mpr fun e he => ?_
        obtain ⟨v, hv, hsame⟩ := sameEntries_iff.mp hentries e he
        obtain ⟨w, hw, hsame'⟩ := sameEntries_iff.mp hentries' _ (mem_of_lookup hv)
        exact ⟨w, hw, sameEntries_trans es e he v w hsame hsame'⟩
      simp [same, hlength, hlength', hboth]
  | float x =>
    cases v <;> try exact absurd huv Bool.false_ne_true
    cases w <;> try exact absurd hvw Bool.false_ne_true
    exact equal_trans huv hvw
  | _ =>
    cases v <;> try exact absurd huv Bool.false_ne_true
    all_goals cases w <;> first | exact absurd hvw Bool.false_ne_true | simp_all [same]

theorem sameItems_trans (items middle others : List Json) (h : sameItems items middle = true)
    (h' : sameItems middle others = true) : sameItems items others = true := by
  cases items with
  | nil =>
    cases middle with
    | nil => exact h'
    | cons v rest => exact absurd h Bool.false_ne_true
  | cons u items =>
    cases middle with
    | nil => exact absurd h Bool.false_ne_true
    | cons v middle =>
      cases others with
      | nil => exact absurd h' Bool.false_ne_true
      | cons w others =>
        obtain ⟨hhead, hrest⟩ := Bool.and_eq_true_iff.mp h
        obtain ⟨hhead', hrest'⟩ := Bool.and_eq_true_iff.mp h'
        exact Bool.and_eq_true_iff.mpr ⟨same_trans u v w hhead hhead',
          sameItems_trans items middle others hrest hrest'⟩

theorem sameEntries_trans (es : List (String × Json)) :
    ∀ e ∈ es, ∀ v w : Json, e.2.same v = true → v.same w = true → e.2.same w = true := by
  cases es with
  | nil => exact fun _ h => absurd h List.not_mem_nil
  | cons first rest =>
    obtain ⟨k, u⟩ := first
    intro e he v w h h'
    rcases List.mem_cons.mp he with rfl | he
    · exact same_trans u v w h h'
    · exact sameEntries_trans rest e he v w h h'

end

end Json

def Values.Proper (values : Values) : Prop := (Json.object values).Proper

theorem Values.Proper.get {values : Values} (h : values.Proper) (name : String) :
    ((values.get? name).getD .null).Proper := by
  cases hget : values.get? name with
  | none => exact trivial
  | some v => exact Json.properEntries_iff.mp h.2 _ (mem_of_lookup hget)

theorem Values.same_self {values : Values} (h : values.Proper) : values.same values = true :=
  (Json.object values).same_self h

theorem Values.same_symm {a b : Values} (ha : a.Proper) (hb : b.Proper) (h : a.same b = true) :
    b.same a = true :=
  Json.same_symm (.object a) (.object b) ha hb h

/-- Equal maps have equal values under every key. -/
theorem Values.rel_get_of_same {a b : Values} (ha : a.Proper) (hb : b.Proper)
    (h : a.same b = true) (key : String) :
    Option.Rel (fun v w => v.same w = true) (a.get? key) (b.get? key) := by
  obtain ⟨-, hforth, hback⟩ := Json.entries_of_same ha hb h
  cases hv : a.get? key with
  | some v =>
    obtain ⟨w, hw, hsame⟩ := hforth _ (mem_of_lookup hv)
    have hget : b.get? key = some w := lookup_of_mem hb.1 hw
    rw [hget]
    exact .some hsame
  | none =>
    cases hw : b.get? key with
    | none => exact .none
    | some w =>
      obtain ⟨v, hmem, -⟩ := hback _ (mem_of_lookup hw)
      have hget : a.get? key = some v := lookup_of_mem ha.1 hmem
      rw [hget] at hv
      cases hv

theorem Values.same_trans {a b c : Values} (hab : a.same b = true) (hbc : b.same c = true) :
    a.same c = true :=
  Json.same_trans (.object a) (.object b) (.object c) hab hbc

end RecordStore
