import RecordStore.Proofs.Derive.MarkerSpelling

/-!
The grammar of the marker. The items of a marker's list are judged from the front, each by itself
and by the flags that the items before it name; a list makes a marker where no item is faulty, and
otherwise reports each faulty item once and in order. Of the attributes of a field only the markers
count, the first of them for itself and a second one only by its being there.
-/
namespace RecordStore

theorem Flag.name_inj {f g : Flag} (h : f.name = g.name) : f = g := by
  revert h
  cases f <;> cases g <;> decide

theorem Flag.ofName?_eq_some {s : String} {flag : Flag} :
    ofName? s = some flag ↔ flag.name = s := by
  unfold ofName?
  constructor
  · intro h
    split at h
    · next hs => exact Option.some.inj h ▸ hs.symm
    · split at h
      · next hs => exact Option.some.inj h ▸ hs.symm
      · cases h
  · rintro rfl
    cases flag <;> decide

theorem Flag.ofName?_eq_none {s : String} : ofName? s = none ↔ ∀ flag : Flag, flag.name ≠ s := by
  rw [Option.eq_none_iff_forall_ne_some]
  exact forall_congr' fun flag => not_congr ofName?_eq_some

namespace ItemForm

/-- The truth value that an item gives: nothing but its name stands for true. -/
inductive Gives : ItemForm → Bool → Prop
  | word : Gives .word true
  | bool (b : Bool) : Gives (.value (.bool b)) b
  | trueText : Gives (.value (.string "true")) true
  | falseText : Gives (.value (.string "false")) false

/-- What is wrong with an item that gives its flag no truth value. -/
inductive Faulty (flag : Flag) : ItemForm → MarkerError → Prop
  | unreadable {content : List Token} {message : String}
      (h : MarkerItem.list content = .error message) :
      Faulty flag (.list content) (.malformed message (some flag))
  | list {content : List Token} {items : List MarkerItem}
      (h : MarkerItem.list content = .ok items) :
      Faulty flag (.list content) (.unexpectedFormat "list" (some flag))
  | text {s : String} (htrue : s ≠ "true") (hfalse : s ≠ "false") :
      Faulty flag (.value (.string s)) (.unknownValue s flag)
  | type (type : String) : Faulty flag (.value (.other type)) (.unexpectedType type flag)

variable {flag : Flag} {form : ItemForm}

theorem flagValue_of_gives {b : Bool} (flag : Flag) (h : form.Gives b) :
    MarkerItem.flagValue flag form = .ok b := by
  cases h <;> rfl

theorem Gives.unique {b c : Bool} (hb : form.Gives b) (hc : form.Gives c) : b = c :=
  Except.ok.inj ((flagValue_of_gives .indexed hb).symm.trans (flagValue_of_gives .indexed hc))

theorem flagValue_of_faulty {e : MarkerError} (h : form.Faulty flag e) :
    MarkerItem.flagValue flag form = .error e := by
  cases h with
  | unreadable h => simp only [MarkerItem.flagValue, h]
  | list h => simp only [MarkerItem.flagValue, h]
  | text htrue hfalse => exact (if_neg htrue).trans (if_neg hfalse)
  | type type => rfl

/-- Every item gives a truth value or is faulty. -/
theorem gives_or_faulty (flag : Flag) (form : ItemForm) :
    (∃ b, form.Gives b) ∨ ∃ e, form.Faulty flag e := by
  cases form with
  | word => exact .inl ⟨true, .word⟩
  | list content =>
    cases h : MarkerItem.list content with
    | error message => exact .inr ⟨_, .unreadable h⟩
    | ok items => exact .inr ⟨_, .list h⟩
  | value value =>
    cases value with
    | bool b => exact .inl ⟨b, .bool b⟩
    | other type => exact .inr ⟨_, .type type⟩
    | string s =>
      by_cases htrue : s = "true"
      · exact .inl ⟨true, htrue ▸ .trueText⟩
      · by_cases hfalse : s = "false"
        · exact .inl ⟨false, hfalse ▸ .falseText⟩
        · exact .inr ⟨_, .text htrue hfalse⟩

theorem Gives.not_faulty {b : Bool} {e : MarkerError} (hb : form.Gives b) :
    ¬ form.Faulty flag e := by
  intro he
  have h := (flagValue_of_gives flag hb).symm.trans (flagValue_of_faulty he)
  cases h

end ItemForm

namespace MarkerItem

def Names (item : MarkerItem) (flag : Flag) : Prop := ∃ form, item = .named flag.name form

def Sets (item : MarkerItem) (flag : Flag) (b : Bool) : Prop :=
  ∃ form, item = .named flag.name form ∧ form.Gives b

/-- What is wrong with an item that comes after some others. A flag is taken by the first item that
has its name, even where that one is faulty. -/
inductive Faulty (before : List MarkerItem) : MarkerItem → MarkerError → Prop
  | literal : Faulty before .literal (.unexpectedFormat "literal" none)
  | unknown {path : String} {form : ItemForm} (h : ∀ flag : Flag, flag.name ≠ path) :
      Faulty before (.named path form) (.unknownFlag path)
  | repeated {path : String} {form : ItemForm} {flag : Flag} (hpath : flag.name = path)
      (h : ∃ item ∈ before, item.Names flag) : Faulty before (.named path form) (.duplicateFlag flag)
  | value {path : String} {form : ItemForm} {flag : Flag} {e : MarkerError}
      (hpath : flag.name = path) (hfirst : ∀ item ∈ before, ¬ item.Names flag)
      (h : form.Faulty flag e) : Faulty before (.named path form) e

/-- One error for each faulty item of some that come after others, in the order of the items. -/
inductive Report : List MarkerItem → List MarkerItem → List MarkerError → Prop
  | nil {before : List MarkerItem} : Report before [] []
  | sound {before items : List MarkerItem} {item : MarkerItem} {errors : List MarkerError}
      (h : ∀ e, ¬ item.Faulty before e) (hrest : Report (before ++ [item]) items errors) :
      Report before (item :: items) errors
  | faulty {before items : List MarkerItem} {item : MarkerItem} {e : MarkerError}
      {errors : List MarkerError} (h : item.Faulty before e)
      (hrest : Report (before ++ [item]) items errors) : Report before (item :: items) (e :: errors)

variable {item : MarkerItem} {before items : List MarkerItem} {flag : Flag}

theorem names_named {path : String} {form : ItemForm} :
    Names (.named path form) flag ↔ flag.name = path :=
  ⟨fun ⟨_, h⟩ => (MarkerItem.named.inj h).1.symm, fun h => ⟨form, h ▸ rfl⟩⟩

theorem Sets.names {b : Bool} (h : item.Sets flag b) : item.Names flag := by
  obtain ⟨form, rfl, -⟩ := h
  exact ⟨form, rfl⟩

theorem Names.unique {other : Flag} (h : item.Names flag) (hother : item.Names other) :
    flag = other := by
  obtain ⟨form, rfl⟩ := h
  exact (Flag.name_inj (names_named.mp hother)).symm

theorem Sets.unique {b c : Bool} (hb : item.Sets flag b) (hc : item.Sets flag c) : b = c := by
  obtain ⟨form, rfl, hb⟩ := hb
  obtain ⟨form', hform, hc⟩ := hc
  cases hform
  exact hb.unique hc

/-- One thing at most is wrong with an item. -/
theorem Faulty.unique {e e' : MarkerError} (h : item.Faulty before e)
    (h' : item.Faulty before e') : e = e' := by
  cases h with
  | literal => cases h'; rfl
  | unknown hnone =>
    cases h' with
    | unknown => rfl
    | repeated hpath => exact absurd hpath (hnone _)
    | value hpath => exact absurd hpath (hnone _)
  | repeated hpath htaken =>
    cases h' with
    | unknown hnone => exact absurd hpath (hnone _)
    | repeated hpath' => rw [Flag.name_inj (hpath.trans hpath'.symm)]
    | value hpath' hfirst =>
      obtain ⟨item, hitem, hnames⟩ := htaken
      exact absurd (Flag.name_inj (hpath.trans hpath'.symm) ▸ hnames) (hfirst item hitem)
  | value hpath hfirst h =>
    cases h' with
    | unknown hnone => exact absurd hpath (hnone _)
    | repeated hpath' htaken =>
      obtain ⟨item, hitem, hnames⟩ := htaken
      exact absurd (Flag.name_inj (hpath'.trans hpath.symm) ▸ hnames) (hfirst item hitem)
    | value hpath' _ h' =>
      obtain rfl := Flag.name_inj (hpath.trans hpath'.symm)
      exact Except.error.inj ((ItemForm.flagValue_of_faulty h).symm.trans
        (ItemForm.flagValue_of_faulty h'))

/-- An item is sound where it gives a flag a value and no item before it has its name. -/
theorem Sets.not_faulty {b : Bool} (h : item.Sets flag b)
    (hfirst : ∀ other ∈ before, ¬ other.Names flag) (e : MarkerError) :
    ¬ item.Faulty before e := by
  obtain ⟨form, rfl, hb⟩ := h
  intro hfaulty
  cases hfaulty with
  | unknown hnone => exact hnone flag rfl
  | repeated hpath htaken =>
    obtain ⟨other, hother, hnames⟩ := htaken
    exact hfirst other hother (Flag.name_inj hpath ▸ hnames)
  | value _ _ h => exact hb.not_faulty h

/-- Every item is faulty or gives a value to a flag that no item before it names. -/
theorem sets_or_faulty (before : List MarkerItem) (item : MarkerItem) :
    (∃ flag b, item.Sets flag b ∧ ∀ other ∈ before, ¬ other.Names flag) ∨
      ∃ e, item.Faulty before e := by
  cases item with
  | literal => exact .inr ⟨_, .literal⟩
  | named path form =>
    by_cases hpath : ∃ flag : Flag, flag.name = path
    · obtain ⟨flag, rfl⟩ := hpath
      by_cases htaken : ∃ other ∈ before, other.Names flag
      · exact .inr ⟨_, .repeated rfl htaken⟩
      · have hfirst : ∀ other ∈ before, ¬ other.Names flag := by
          intro other hother hnames
          exact htaken ⟨other, hother, hnames⟩
        obtain ⟨b, hb⟩ | ⟨e, he⟩ := ItemForm.gives_or_faulty flag form
        · exact .inl ⟨flag, b, ⟨form, rfl, hb⟩, hfirst⟩
        · exact .inr ⟨e, .value rfl hfirst he⟩
    · exact .inr ⟨_, .unknown fun flag hflag => hpath ⟨flag, hflag⟩⟩

namespace Report

variable {errors : List MarkerError}

theorem unique {errors' : List MarkerError} (h : Report before items errors)
    (h' : Report before items errors') : errors = errors' := by
  induction h generalizing errors' with
  | nil => cases h'; rfl
  | sound hsound _ ih =>
    cases h' with
    | sound _ hrest => exact ih hrest
    | faulty hfaulty => exact absurd hfaulty (hsound _)
  | faulty hfaulty _ ih =>
    cases h' with
    | sound hsound => exact absurd hfaulty (hsound _)
    | faulty hfaulty' hrest => rw [hfaulty.unique hfaulty', ih hrest]

/-- A report goes on with the item that comes next, if that is sound. -/
theorem snoc_sound {start : List MarkerItem} (h : Report start items errors)
    (hitem : ∀ e, ¬ item.Faulty (start ++ items) e) : Report start (items ++ [item]) errors := by
  induction h with
  | nil => exact .sound (by simpa using hitem) .nil
  | sound hsound _ ih => exact .sound hsound (ih (by simpa using hitem))
  | faulty hfaulty _ ih => exact .faulty hfaulty (ih (by simpa using hitem))

/-- A report goes on with the item that comes next, if that is faulty. -/
theorem snoc_faulty {start : List MarkerItem} {e : MarkerError} (h : Report start items errors)
    (hitem : item.Faulty (start ++ items) e) :
    Report start (items ++ [item]) (errors ++ [e]) := by
  induction h with
  | nil => exact .faulty (by simpa using hitem) .nil
  | sound hsound _ ih => exact .sound hsound (ih (by simpa using hitem))
  | faulty hfaulty _ ih => exact .faulty hfaulty (ih (by simpa using hitem))

/-- Nothing is reported where every item is sound. -/
theorem of_sound {start : List MarkerItem}
    (h : ∀ (before : List MarkerItem) (item : MarkerItem) (after : List MarkerItem),
      items = before ++ item :: after →
      ∀ e, ¬ item.Faulty (start ++ before) e) : Report start items [] := by
  induction items generalizing start with
  | nil => exact .nil
  | cons item items ih =>
    refine .sound (by simpa using h [] item items rfl) (ih fun before other after hitems => ?_)
    simpa using h (item :: before) other after (by rw [hitems, List.cons_append])

end Report

end MarkerItem

namespace Marker

open MarkerItem

variable {m : Marker} {items : List MarkerItem}

def get (m : Marker) : Flag → Bool
  | .primaryKey => m.primaryKey
  | .indexed => m.indexed

/-- A marker as its items say: each of them gives a value to a flag that no other one names, and
the flags that are not named are false. -/
structure MadeOf (m : Marker) (items : List MarkerItem) : Prop where
  sets : ∀ item ∈ items, ∃ flag b, item.Sets flag b
  once : items.Pairwise fun item other => ∀ flag, item.Names flag → ¬ other.Names flag
  given : ∀ item ∈ items, ∀ flag b, item.Sets flag b → m.get flag = b
  unnamed : ∀ flag, (∀ item ∈ items, ¬ item.Names flag) → m.get flag = false

theorem ext_get {m m' : Marker} (h : ∀ flag, m.get flag = m'.get flag) : m = m' := by
  obtain ⟨primaryKey, indexed⟩ := m
  obtain ⟨primaryKey', indexed'⟩ := m'
  obtain rfl : primaryKey = primaryKey' := h .primaryKey
  obtain rfl : indexed = indexed' := h .indexed
  rfl

theorem get_set_self (m : Marker) (flag : Flag) (b : Bool) : (m.set flag b).get flag = b := by
  cases flag <;> rfl

theorem get_set_of_ne (m : Marker) {flag other : Flag} (b : Bool) (h : other ≠ flag) :
    (m.set flag b).get other = m.get other := by
  cases flag <;> cases other <;> first | rfl | exact absurd rfl h

namespace MadeOf

/-- The order of the items does not matter. -/
theorem perm {items' : List MarkerItem} (h : m.MadeOf items) (hperm : items.Perm items') :
    m.MadeOf items' where
  sets item hitem := h.sets item (hperm.mem_iff.mpr hitem)
  once := by
    refine (hperm.pairwise_iff fun {item other} hne flag hother hitem => ?_).mp h.once
    exact hne flag hitem hother
  given item hitem := h.given item (hperm.mem_iff.mpr hitem)
  unnamed flag hflag := h.unnamed flag fun item hitem => hflag item (hperm.mem_iff.mp hitem)

theorem unique {m' : Marker} (h : m.MadeOf items) (h' : m'.MadeOf items) : m = m' := by
  refine ext_get fun flag => ?_
  by_cases hflag : ∃ item ∈ items, item.Names flag
  · obtain ⟨item, hitem, hnames⟩ := hflag
    obtain ⟨other, b, hsets⟩ := h.sets item hitem
    obtain rfl := hnames.unique hsets.names
    rw [h.given item hitem flag b hsets, h'.given item hitem flag b hsets]
  · have hnone : ∀ item ∈ items, ¬ item.Names flag := by
      intro item hitem hnames
      exact hflag ⟨item, hitem, hnames⟩
    rw [h.unnamed flag hnone, h'.unnamed flag hnone]

theorem nil : MadeOf {} [] where
  sets item hitem := absurd hitem List.not_mem_nil
  once := .nil
  given item hitem := absurd hitem List.not_mem_nil
  unnamed flag _ := by cases flag <;> rfl

/-- One more item gives its flag the value that it says and leaves the other one as it was. -/
theorem snoc {item : MarkerItem} {flag : Flag} {b : Bool} (h : m.MadeOf items)
    (hsets : item.Sets flag b) (hfirst : ∀ other ∈ items, ¬ other.Names flag) :
    (m.set flag b).MadeOf (items ++ [item]) where
  sets := by
    intro other hother
    obtain hother | hother := List.mem_append.mp hother
    · exact h.sets other hother
    · exact ⟨flag, b, List.mem_singleton.mp hother ▸ hsets⟩
  once := by
    refine List.pairwise_append.mpr ⟨h.once, List.pairwise_singleton _ _, ?_⟩
    intro other hother last hlast named hnames hlastNames
    obtain rfl := List.mem_singleton.mp hlast
    exact hfirst other hother (hlastNames.unique hsets.names ▸ hnames)
  given := by
    intro other hother named c hc
    obtain hother | hother := List.mem_append.mp hother
    · have hne : named ≠ flag := by
        rintro rfl
        exact hfirst other hother hc.names
      rw [get_set_of_ne m b hne]
      exact h.given other hother named c hc
    · obtain rfl := List.mem_singleton.mp hother
      obtain rfl := hc.names.unique hsets.names
      rw [get_set_self, hsets.unique hc]
  unnamed := by
    intro other hnone
    have hne : other ≠ flag := by
      rintro rfl
      exact hnone item (List.mem_append_right _ (List.mem_singleton_self _)) hsets.names
    rw [get_set_of_ne m b hne]
    exact h.unnamed other fun item hitem => hnone item (List.mem_append_left _ hitem)

/-- No item of a marker is faulty. -/
theorem report (h : m.MadeOf items) : Report [] items [] := by
  refine .of_sound fun before item after hitems => ?_
  obtain ⟨flag, b, hsets⟩ := h.sets item (hitems ▸ List.mem_append_right _ List.mem_cons_self)
  refine hsets.not_faulty fun other hother hnames => ?_
  have honce := (List.pairwise_append.mp (hitems ▸ h.once)).2.2
  exact honce other hother item List.mem_cons_self flag hnames hsets.names

end MadeOf

/-- What a draft knows of the items that it has taken into account. -/
structure Draft.Tracks (d : Draft) (items : List MarkerItem) : Prop where
  named : ∀ flag, flag ∈ d.named ↔ ∃ item ∈ items, item.Names flag
  report : Report [] items d.errors
  made : d.errors = [] → d.marker.MadeOf items

namespace Draft

variable {d : Draft} {item : MarkerItem}

theorem tracks_nil : Tracks {} [] where
  named _ := ⟨fun h => absurd h List.not_mem_nil, fun ⟨_, h, _⟩ => absurd h List.not_mem_nil⟩
  report := .nil
  made _ := .nil

theorem Tracks.not_contains {flag : Flag} (h : d.Tracks items)
    (hfirst : ∀ other ∈ items, ¬ other.Names flag) : ¬ d.named.contains flag = true := by
  intro hmem
  obtain ⟨other, hother, hnames⟩ := (h.named flag).mp (List.contains_iff_mem.mp hmem)
  exact hfirst other hother hnames

/-- Taking an item into account adds what is wrong with it, and its flag to the named ones. -/
theorem add_of_faulty {e : MarkerError} (h : d.Tracks items) (hitem : item.Faulty items e) :
    (d.add item).errors = d.errors ++ [e] ∧
      ∀ flag, flag ∈ (d.add item).named ↔ flag ∈ d.named ∨ item.Names flag := by
  cases hitem with
  | literal => exact ⟨rfl, fun _ => (or_iff_left fun ⟨_, h⟩ => nomatch h).symm⟩
  | @unknown path form hnone =>
    have hadd : d.add (.named path form) = { d with errors := d.errors ++ [.unknownFlag path] } := by
      rw [add, Flag.ofName?_eq_none.mpr hnone]
    rw [hadd]
    exact ⟨rfl, fun flag => (or_iff_left fun hnames => hnone flag (names_named.mp hnames)).symm⟩
  | @repeated path form flag hpath htaken =>
    have hmem : flag ∈ d.named := (h.named flag).mpr htaken
    have hadd : d.add (.named path form) =
        { d with errors := d.errors ++ [.duplicateFlag flag] } := by
      rw [add, Flag.ofName?_eq_some.mpr hpath]
      exact if_pos (List.contains_iff_mem.mpr hmem)
    rw [hadd]
    refine ⟨rfl, fun other => (or_iff_left_of_imp fun hnames => ?_).symm⟩
    exact Flag.name_inj (hpath.trans (names_named.mp hnames).symm) ▸ hmem
  | @value path form flag e hpath hfirst hform =>
    have hadd : d.add (.named path form) =
        { d with named := flag :: d.named, errors := d.errors ++ [e] } := by
      rw [add, Flag.ofName?_eq_some.mpr hpath]
      simp only [if_neg (h.not_contains hfirst), ItemForm.flagValue_of_faulty hform]
    rw [hadd]
    refine ⟨rfl, fun other => ?_⟩
    rw [List.mem_cons, names_named, ← hpath, or_comm]
    exact or_congr_right ⟨congrArg Flag.name, Flag.name_inj⟩

/-- Taking a sound item into account gives its flag the value that it says. -/
theorem add_of_sets {flag : Flag} {b : Bool} (h : d.Tracks items) (hsets : item.Sets flag b)
    (hfirst : ∀ other ∈ items, ¬ other.Names flag) :
    d.add item = { d with marker := d.marker.set flag b, named := flag :: d.named } := by
  obtain ⟨form, rfl, hb⟩ := hsets
  rw [add, Flag.ofName?_eq_some.mpr rfl]
  simp only [if_neg (h.not_contains hfirst), ItemForm.flagValue_of_gives flag hb]

/-- Adding an item to a draft goes on as the grammar goes on. -/
theorem Tracks.add (h : d.Tracks items) (item : MarkerItem) :
    (d.add item).Tracks (items ++ [item]) := by
  have hnames : ∀ flag, (∃ other ∈ items ++ [item], other.Names flag) ↔
      flag ∈ d.named ∨ item.Names flag := by
    intro flag
    rw [h.named flag]
    simp only [List.mem_append, List.mem_singleton, or_and_right, exists_or, exists_eq_left]
  obtain ⟨flag, b, hsets, hfirst⟩ | ⟨e, hfaulty⟩ := sets_or_faulty items item
  · rw [add_of_sets h hsets hfirst]
    refine ⟨fun other => ?_, h.report.snoc_sound (hsets.not_faulty hfirst),
      fun herrors => (h.made herrors).snoc hsets hfirst⟩
    rw [hnames other, List.mem_cons, or_comm]
    exact or_congr_right ⟨fun heq => heq ▸ hsets.names, fun hother => hother.unique hsets.names⟩
  · obtain ⟨herrors, hnamed⟩ := add_of_faulty h hfaulty
    refine ⟨fun other => (hnamed other).trans (hnames other).symm, ?_, fun hnil => ?_⟩
    · exact herrors ▸ h.report.snoc_faulty hfaulty
    · exact absurd (herrors ▸ hnil) (List.append_ne_nil_of_right_ne_nil _ (List.cons_ne_nil e []))

/-- Items taken into account one after another are all tracked. -/
theorem Tracks.foldl {before : List MarkerItem} (h : d.Tracks before) :
    (items.foldl Draft.add d).Tracks (before ++ items) := by
  induction items generalizing before d with
  | nil => rwa [List.append_nil]
  | cons item items ih => simpa using ih (h.add item)

end Draft

/-- Items make a marker where none is faulty, and otherwise their report. -/
theorem ofItems_cases (items : List MarkerItem) :
    (∃ m : Marker, ofItems items = .ok m ∧ m.MadeOf items) ∨
      ∃ errors, ofItems items = .error errors ∧ errors ≠ [] ∧ Report [] items errors := by
  have h : (items.foldl Draft.add {}).Tracks items := Draft.tracks_nil.foldl
  unfold ofItems
  cases herrors : (items.foldl Draft.add {}).errors with
  | nil => exact .inl ⟨_, by simp [herrors], h.made herrors⟩
  | cons e es => exact .inr ⟨_, by simp [herrors], List.cons_ne_nil e es, herrors ▸ h.report⟩

theorem ofItems_eq_ok : ofItems items = .ok m ↔ m.MadeOf items := by
  obtain ⟨m', hok, hmade⟩ | ⟨errors, herror, hne, hreport⟩ := ofItems_cases items
  · rw [hok, Except.ok.injEq]
    exact ⟨fun h => h ▸ hmade, hmade.unique⟩
  · rw [herror]
    exact ⟨nofun, fun h => absurd (hreport.unique h.report) hne⟩

theorem ofItems_eq_error {errors : List MarkerError} :
    ofItems items = .error errors ↔ errors ≠ [] ∧ Report [] items errors := by
  obtain ⟨m, hok, hmade⟩ | ⟨errors', herror, hne, hreport⟩ := ofItems_cases items
  · rw [hok]
    exact ⟨nofun, fun ⟨hne, h⟩ => absurd (h.unique hmade.report) hne⟩
  · rw [herror, Except.error.injEq]
    exact ⟨fun h => h ▸ ⟨hne, hreport⟩, fun ⟨_, h⟩ => hreport.unique h⟩

end Marker

/-- The marker that the form of an attribute makes. -/
inductive AttributeForm.Makes : AttributeForm → Marker → Prop
  | word : Makes .word {}
  | list {content : List Token} {items : List MarkerItem} {m : Marker}
      (hcontent : MarkerItem.list content = .ok items) (h : m.MadeOf items) :
      Makes (.list content) m

/-- What is wrong with the form of an attribute that makes no marker. -/
inductive AttributeForm.Fails : AttributeForm → List MarkerError → Prop
  | value : Fails .value [.unexpectedFormat "name-value" none]
  | unreadable {content : List Token} {message : String}
      (hcontent : MarkerItem.list content = .error message) :
      Fails (.list content) [.malformed message none]
  | items {content : List Token} {items : List MarkerItem} {errors : List MarkerError}
      (hcontent : MarkerItem.list content = .ok items) (h : MarkerItem.Report [] items errors)
      (hne : errors ≠ []) : Fails (.list content) errors

/-- Whether the path of an attribute is the one name of the marker. -/
def Attribute.Marks (a : Attribute) : Prop := a.isGlobal = false ∧ a.path = ["persisted"]

instance (a : Attribute) : Decidable a.Marks :=
  inferInstanceAs (Decidable (a.isGlobal = false ∧ a.path = ["persisted"]))

namespace Marker

open MarkerItem

variable {m : Marker} {form : AttributeForm} {errors : List MarkerError}

theorem isMarker_iff {a : Attribute} : isMarker a = true ↔ a.Marks := by
  simp [isMarker, Attribute.Marks, attributeName]

/-- A form is read as a marker just when it makes that marker. -/
theorem ofForm_eq_ok : ofForm form = .ok m ↔ form.Makes m := by
  constructor
  · intro h
    cases form with
    | word => exact Except.ok.inj h ▸ .word
    | value => cases h
    | list content =>
      unfold ofForm at h
      cases hcontent : MarkerItem.list content with
      | error message => simp only [hcontent] at h; cases h
      | ok items =>
        simp only [hcontent] at h
        exact .list hcontent (ofItems_eq_ok.mp h)
  · intro h
    cases h with
    | word => rfl
    | list hcontent h =>
      simp only [ofForm, hcontent]
      exact ofItems_eq_ok.mpr h

/-- A form is refused just with what is wrong with it. -/
theorem ofForm_eq_error : ofForm form = .error errors ↔ form.Fails errors := by
  constructor
  · intro h
    cases form with
    | word => cases h
    | value => exact Except.error.inj h ▸ .value
    | list content =>
      unfold ofForm at h
      cases hcontent : MarkerItem.list content with
      | error message =>
        simp only [hcontent] at h
        exact Except.error.inj h ▸ .unreadable hcontent
      | ok items =>
        simp only [hcontent] at h
        obtain ⟨hne, hreport⟩ := ofItems_eq_error.mp h
        exact .items hcontent hreport hne
  · intro h
    cases h with
    | value => rfl
    | unreadable hcontent => simp only [ofForm, hcontent]
    | items hcontent h hne =>
      simp only [ofForm, hcontent]
      exact ofItems_eq_error.mpr ⟨hne, h⟩

/-- Attributes without a marker, with one, or with more of them. -/
theorem marks_cases (attributes : List Attribute) :
    (∀ a ∈ attributes, ¬ a.Marks) ∨
      ∃ (before : List Attribute) (a : Attribute) (after : List Attribute),
        attributes = before ++ a :: after ∧ (∀ b ∈ before, ¬ b.Marks) ∧ a.Marks := by
  induction attributes with
  | nil => exact .inl fun a ha => absurd ha List.not_mem_nil
  | cons a attributes ih =>
    by_cases ha : a.Marks
    · exact .inr ⟨[], a, attributes, rfl, fun b hb => absurd hb List.not_mem_nil, ha⟩
    · obtain hnone | ⟨before, b, after, rfl, hbefore, hb⟩ := ih
      · exact .inl (List.forall_mem_cons.mpr ⟨ha, hnone⟩)
      · exact .inr ⟨a :: before, b, after, rfl, List.forall_mem_cons.mpr ⟨ha, hbefore⟩, hb⟩

theorem filter_eq_nil {attributes : List Attribute} :
    attributes.filter isMarker = [] ↔ ∀ a ∈ attributes, ¬ a.Marks := by
  rw [List.filter_eq_nil_iff]
  exact forall₂_congr fun a _ => not_congr isMarker_iff

/-- The first marker comes first among the markers. -/
theorem filter_first {before after : List Attribute} {a : Attribute}
    (hbefore : ∀ b ∈ before, ¬ b.Marks) (ha : a.Marks) :
    (before ++ a :: after).filter isMarker = a :: after.filter isMarker := by
  rw [List.filter_append, filter_eq_nil.mpr hbefore, List.nil_append,
    List.filter_cons_of_pos (isMarker_iff.mpr ha)]

theorem ofAttributes_of_none {attributes : List Attribute} (h : ∀ a ∈ attributes, ¬ a.Marks) :
    ofAttributes attributes = .ok none := by
  rw [ofAttributes, filter_eq_nil.mpr h]

/-- The first marker decides, and if it is right, whether there is a second one. -/
theorem ofAttributes_first {before after : List Attribute} {a : Attribute}
    (hbefore : ∀ b ∈ before, ¬ b.Marks) (ha : a.Marks) :
    ofAttributes (before ++ a :: after) =
      (ofForm a.form).bind fun m =>
        if ∀ b ∈ after, ¬ b.Marks then .ok (some m) else .error [.duplicateMarker] := by
  rw [ofAttributes, filter_first hbefore ha]
  cases hmarkers : after.filter isMarker with
  | nil =>
    have hafter := filter_eq_nil.mp hmarkers
    cases hform : ofForm a.form with
    | error errors => simp only [hform]; rfl
    | ok m => simp only [hform]; exact (if_pos hafter).symm
  | cons b markers =>
    have hafter : ¬ ∀ b ∈ after, ¬ b.Marks := by
      rw [← filter_eq_nil, hmarkers]
      exact List.cons_ne_nil b markers
    cases hform : ofForm a.form with
    | error errors => simp only [hform]; rfl
    | ok m => simp only [hform]; exact (if_neg hafter).symm

/-- A marker is made by the first one if that is the only one. -/
theorem first_eq_some {before after : List Attribute} {a : Attribute}
    (hbefore : ∀ b ∈ before, ¬ b.Marks) (ha : a.Marks) :
    ofAttributes (before ++ a :: after) = .ok (some m) ↔
      (∀ b ∈ after, ¬ b.Marks) ∧ a.form.Makes m := by
  rw [ofAttributes_first hbefore ha, ← ofForm_eq_ok]
  cases ofForm a.form with
  | error errors => exact ⟨nofun, fun ⟨_, h⟩ => nomatch h⟩
  | ok m' =>
    by_cases hafter : ∀ b ∈ after, ¬ b.Marks
    · simp only [Except.bind, if_pos hafter, Except.ok.injEq, Option.some.injEq]
      exact (and_iff_right hafter).symm
    · simp only [Except.bind, if_neg hafter]
      exact ⟨nofun, fun ⟨h, _⟩ => absurd h hafter⟩

/-- An error is the first marker's own, or that there is a second one. -/
theorem first_eq_error {before after : List Attribute} {a : Attribute}
    (hbefore : ∀ b ∈ before, ¬ b.Marks) (ha : a.Marks) :
    ofAttributes (before ++ a :: after) = .error errors ↔
      a.form.Fails errors ∨
        (∃ m, a.form.Makes m) ∧ (∃ b ∈ after, b.Marks) ∧ errors = [.duplicateMarker] := by
  have hmarks : (∃ b ∈ after, b.Marks) ↔ ¬ ∀ b ∈ after, ¬ b.Marks := by
    simp
  simp only [ofAttributes_first hbefore ha, ← ofForm_eq_ok, ← ofForm_eq_error, hmarks]
  cases ofForm a.form with
  | error es =>
    simp only [Except.bind, Except.error.injEq]
    refine ⟨.inl, fun h => ?_⟩
    obtain h | ⟨⟨_, h⟩, _⟩ := h
    · exact h
    · cases h
  | ok m =>
    by_cases hafter : ∀ b ∈ after, ¬ b.Marks
    · simp only [Except.bind, if_pos hafter]
      exact ⟨nofun, fun h => h.elim nofun fun ⟨_, h, _⟩ => absurd hafter h⟩
    · simp only [Except.bind, if_neg hafter, Except.error.injEq]
      exact ⟨fun h => .inr ⟨⟨m, rfl⟩, hafter, h.symm⟩, fun h => h.elim nofun (·.2.2.symm)⟩

/-- A field is unmarked just when none of its attributes marks it. -/
theorem ofAttributes_eq_none {attributes : List Attribute} :
    ofAttributes attributes = .ok none ↔ ∀ a ∈ attributes, ¬ a.Marks := by
  refine ⟨fun h => ?_, ofAttributes_of_none⟩
  obtain hnone | ⟨before, a, after, rfl, hbefore, ha⟩ := marks_cases attributes
  · exact hnone
  · rw [ofAttributes_first hbefore ha] at h
    cases hform : ofForm a.form with
    | error errors => rw [hform] at h; cases h
    | ok m =>
      simp only [hform, Except.bind] at h
      split at h <;> cases h

/-- A field has a marker just when one attribute of it marks it and makes that marker. -/
theorem ofAttributes_eq_some {attributes : List Attribute} :
    ofAttributes attributes = .ok (some m) ↔
      ∃ (before : List Attribute) (a : Attribute) (after : List Attribute),
        attributes = before ++ a :: after ∧
        (∀ b ∈ before ++ after, ¬ b.Marks) ∧ a.Marks ∧ a.form.Makes m := by
  constructor
  · intro h
    obtain hnone | ⟨before, a, after, rfl, hbefore, ha⟩ := marks_cases attributes
    · rw [ofAttributes_of_none hnone] at h
      cases h
    · obtain ⟨hafter, hmakes⟩ := (first_eq_some hbefore ha).mp h
      exact ⟨before, a, after, rfl, List.forall_mem_append.mpr ⟨hbefore, hafter⟩, ha, hmakes⟩
  · rintro ⟨before, a, after, rfl, hothers, ha, hmakes⟩
    obtain ⟨hbefore, hafter⟩ := List.forall_mem_append.mp hothers
    exact (first_eq_some hbefore ha).mpr ⟨hafter, hmakes⟩

/-- A field is refused for the first attribute that marks it, or for a second one. -/
theorem ofAttributes_eq_error {attributes : List Attribute} :
    ofAttributes attributes = .error errors ↔
      ∃ (before : List Attribute) (a : Attribute) (after : List Attribute),
        attributes = before ++ a :: after ∧ (∀ b ∈ before, ¬ b.Marks) ∧ a.Marks ∧
        (a.form.Fails errors ∨
          (∃ m, a.form.Makes m) ∧ (∃ b ∈ after, b.Marks) ∧ errors = [.duplicateMarker]) := by
  constructor
  · intro h
    obtain hnone | ⟨before, a, after, rfl, hbefore, ha⟩ := marks_cases attributes
    · rw [ofAttributes_of_none hnone] at h
      cases h
    · exact ⟨before, a, after, rfl, hbefore, ha, (first_eq_error hbefore ha).mp h⟩
  · rintro ⟨before, a, after, rfl, hbefore, ha, h⟩
    exact (first_eq_error hbefore ha).mpr h

/-- Attributes that are no markers do not matter, wherever they stand. -/
theorem ofAttributes_insert {before others after : List Attribute}
    (h : ∀ b ∈ others, ¬ b.Marks) :
    ofAttributes (before ++ others ++ after) = ofAttributes (before ++ after) := by
  have hfilter : (before ++ others ++ after).filter isMarker =
      (before ++ after).filter isMarker := by
    simp only [List.filter_append, filter_eq_nil.mpr h, List.append_nil]
  unfold ofAttributes
  rw [hfilter]

/-- Where a marker is made no attribute before a marker is one. -/
theorem not_marks_of_eq_some {before after : List Attribute} {a : Attribute}
    (h : ofAttributes (before ++ a :: after) = .ok (some m)) (ha : a.Marks) :
    ∀ b ∈ before, ¬ b.Marks := by
  obtain ⟨first, b, rest, hsplit, hothers, hb, -⟩ := ofAttributes_eq_some.mp h
  obtain ⟨hfirst, hrest⟩ := List.forall_mem_append.mp hothers
  have hlength : ((before ++ a :: after).filter isMarker).length = 1 := by
    rw [hsplit, filter_first hfirst hb, filter_eq_nil.mpr hrest]
    rfl
  rw [List.filter_append, List.filter_cons_of_pos (isMarker_iff.mpr ha), List.length_append,
    List.length_cons] at hlength
  exact filter_eq_nil.mp (List.length_eq_zero_iff.mp (by omega))

/-- Items that make a marker make it in any order. -/
theorem ofAttributes_reorder {before after : List Attribute} {a : Attribute}
    {content content' : List Token} {items items' : List MarkerItem}
    (hform : a.form = .list content) (hitems : MarkerItem.list content = .ok items)
    (hitems' : MarkerItem.list content' = .ok items') (hperm : items.Perm items')
    (h : ofAttributes (before ++ a :: after) = .ok (some m)) :
    ofAttributes (before ++ { a with form := .list content' } :: after) = .ok (some m) := by
  by_cases ha : a.Marks
  · have hbefore := not_marks_of_eq_some h ha
    obtain ⟨hafter, hmakes⟩ := (first_eq_some hbefore ha).mp h
    have ha' : Attribute.Marks { a with form := .list content' } := ha
    refine (first_eq_some hbefore ha').mpr ⟨hafter, ?_⟩
    rw [hform] at hmakes
    cases hmakes with
    | list hread hmade =>
      obtain rfl := Except.ok.inj (hitems.symm.trans hread)
      exact .list hitems' (hmade.perm hperm)
  · have hinsert : ∀ b : Attribute, ¬ b.Marks →
        ofAttributes (before ++ b :: after) = ofAttributes (before ++ after) := by
      intro b hb
      have h := @ofAttributes_insert before [b] after (List.forall_mem_singleton.mpr hb)
      rwa [List.append_assoc] at h
    have ha' : ¬ Attribute.Marks { a with form := .list content' } := ha
    rw [hinsert _ ha', ← hinsert a ha, h]

/-- Where the only marker lists items, they decide by what they say. -/
theorem ofAttributes_written {before after : List Attribute} {a : Attribute}
    {tss : List (List Token)} {items : List MarkerItem} {trailing : Bool}
    (hothers : ∀ b ∈ before ++ after, ¬ b.Marks) (ha : a.Marks)
    (hform : a.form = .list (separated [.comma] trailing tss))
    (hwritten : List.Forall₂ Written tss items) :
    (∀ m, ofAttributes (before ++ a :: after) = .ok (some m) ↔ m.MadeOf items) ∧
      ∀ errors, ofAttributes (before ++ a :: after) = .error errors ↔
        errors ≠ [] ∧ Report [] items errors := by
  obtain ⟨hbefore, hafter⟩ := List.forall_mem_append.mp hothers
  have hitems : ofForm a.form = ofItems items := by
    rw [hform]
    simp only [ofForm, list_of_written hwritten trailing]
  constructor
  · intro m
    rw [first_eq_some hbefore ha, ← ofForm_eq_ok, hitems, ofItems_eq_ok, and_iff_right hafter]
  · intro errors
    rw [first_eq_error hbefore ha, ← ofForm_eq_error, hitems, ofItems_eq_error]
    exact or_iff_left fun ⟨_, ⟨b, hb, hmarks⟩, _⟩ => hafter b hb hmarks

/-- The grammar of the marker. There is none exactly where no attribute is a marker, and there is
one exactly where one attribute is and makes it, by its items in any order. Otherwise the first
marker reports what is wrong with it, with one error for each faulty item if its list is well
formed, or else, if it is right, that there is a second one, whatever that says. Items that are
written with commas between them are well formed. Attributes that are no markers do not matter. -/
theorem ofAttributes_grammar (attributes : List Attribute) :
    (ofAttributes attributes = .ok none ↔ ∀ a ∈ attributes, ¬ a.Marks) ∧
    (∀ m, ofAttributes attributes = .ok (some m) ↔
      ∃ (before : List Attribute) (a : Attribute) (after : List Attribute),
        attributes = before ++ a :: after ∧
        (∀ b ∈ before ++ after, ¬ b.Marks) ∧ a.Marks ∧ a.form.Makes m) ∧
    (∀ (before : List Attribute) (a : Attribute) (after : List Attribute)
      (content content' : List Token) (items items' : List MarkerItem) (m : Marker),
      attributes = before ++ a :: after →
      a.form = .list content → MarkerItem.list content = .ok items →
      MarkerItem.list content' = .ok items' → items.Perm items' →
      ofAttributes attributes = .ok (some m) →
      ofAttributes (before ++ { a with form := .list content' } :: after) = .ok (some m)) ∧
    (∀ errors, ofAttributes attributes = .error errors ↔
      ∃ (before : List Attribute) (a : Attribute) (after : List Attribute),
        attributes = before ++ a :: after ∧ (∀ b ∈ before, ¬ b.Marks) ∧ a.Marks ∧
        (a.form.Fails errors ∨
          (∃ m, a.form.Makes m) ∧ (∃ b ∈ after, b.Marks) ∧ errors = [.duplicateMarker])) ∧
    (∀ (before : List Attribute) (a : Attribute) (after : List Attribute)
      (tss : List (List Token)) (items : List MarkerItem) (trailing : Bool),
      attributes = before ++ a :: after →
      (∀ b ∈ before ++ after, ¬ b.Marks) → a.Marks →
      a.form = .list (separated [.comma] trailing tss) → List.Forall₂ Written tss items →
      (∀ m, ofAttributes attributes = .ok (some m) ↔ m.MadeOf items) ∧
        ∀ errors, ofAttributes attributes = .error errors ↔
          errors ≠ [] ∧ Report [] items errors) ∧
    (∀ before others after : List Attribute, attributes = before ++ after → (∀ b ∈ others, ¬ b.Marks) →
      ofAttributes (before ++ others ++ after) = ofAttributes attributes) := by
  refine ⟨ofAttributes_eq_none, fun m => ofAttributes_eq_some, ?_, fun errors =>
    ofAttributes_eq_error, ?_, ?_⟩
  · rintro before a after content content' items items' m rfl hform hitems hitems' hperm h
    exact ofAttributes_reorder hform hitems hitems' hperm h
  · rintro before a after tss items trailing rfl hothers ha hform hwritten
    exact ofAttributes_written hothers ha hform hwritten
  · rintro before others after rfl hothers
    exact ofAttributes_insert hothers

end Marker

end RecordStore
