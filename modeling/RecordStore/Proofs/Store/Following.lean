import RecordStore.Proofs.Store.Delivery
import RecordStore.Proofs.Store.EditScript
import RecordStore.Proofs.Store.Readability

/-!
Following the changes that an observer is sent. The first tells a version of its table, and every
update is a script from the version told before it to the one whose records it holds. Commits
between the two that told nothing left the rows as they were, so no script is missing. Who follows
all scripts on the records of the first version holds those of the table as it is.
-/
namespace RecordStore

open Store

def Change.applyTo (held : List Record) : Change → List Record
  | .initial records => records
  | .update records indices => indices.follow held records
  | .error _ => held

/-- A change that tells a version of a table to who was told an older one. An update has the records
of the version and is a script that leads to it. -/
def Change.Tells (m : Model) (old t : Table) : Change → Prop
  | .initial _ => False
  | .update records indices => t.records m = .ok records ∧ old.EditScript t indices
  | .error e => t.records m = .error e

/-- Changes of which each tells the next of some versions, the first of them after a given one. -/
inductive TellAll (m : Model) : Table → List Change → List Table → Prop
  | nil (old : Table) : TellAll m old [] []
  | cons {old t : Table} {c : Change} {changes : List Change} {versions : List Table}
      (hfirst : c.Tells m old t) (hrest : TellAll m t changes versions) :
      TellAll m old (c :: changes) (t :: versions)

namespace Watch

def held (w : Watch) : List Record := w.sent.foldl Change.applyTo []

def versions (m : Model) (id : Nat) : Store → Watch → List Store.Event → List Table
  | _, _, [] => []
  | s, w, e :: rest =>
    let later := versions m id (s.step e) (w.step m id s e) rest
    if w.sent.length < (w.step m id s e).sent.length then
      (s.step e).tables.table m.typeName :: later
    else later

variable {m : Model} {id : Nat} {s : Store} {w : Watch} {e : Store.Event}

theorem sent_receive (w : Watch) (r : Received) : (w.receive r).sent = w.sent := by
  cases r <;> rfl

theorem isLive_receive (w : Watch) (r : Received) : (w.receive r).isLive = w.isLive := by
  cases r <;> rfl

/-- What is sent by an event is what is new. -/
theorem sent_step (w : Watch) (e : Store.Event) :
    (w.step m id s e).sent = (w.send (s.news m (s.step e))).sent := by
  cases e with
  | receive j =>
    simp only [step]
    split
    · exact sent_receive _ _
    · rfl
  | _ => rfl

/-- A watch lives on unless it is sent a failure or an event ends its subscription. -/
theorem isLive_step (w : Watch) (e : Store.Event) :
    (w.step m id s e).isLive = ((w.send (s.news m (s.step e))).isLive && !e.ends id) := by
  cases e with
  | receive j =>
    simp only [step]
    split
    · exact isLive_receive _ _
    · rfl
  | _ => rfl

theorem send_of_not_live (h : w.isLive = false) (c? : Option Change) : w.send c? = w := by
  cases c? with
  | none => rfl
  | some c => simp [send, h]

/-- Once its subscription has ended nothing is sent to an observer. -/
theorem after_of_not_live (events : List Store.Event) (h : w.isLive = false) :
    (after m id s w events).sent = w.sent ∧ (after m id s w events).isLive = false ∧
      versions m id s w events = [] := by
  induction events generalizing s w with
  | nil => exact ⟨rfl, h, rfl⟩
  | cons e rest ih =>
    have hsent : (w.step m id s e).sent = w.sent := by rw [sent_step, send_of_not_live h]
    have hlive : (w.step m id s e).isLive = false := by
      rw [isLive_step, send_of_not_live h, h, Bool.false_and]
    obtain ⟨hsent', hlive', hversions⟩ := ih (s := s.step e) hlive
    refine ⟨hsent'.trans hsent, hlive', ?_⟩
    rw [versions, hsent, if_neg (Nat.lt_irrefl _)]
    exact hversions

theorem isLive_of_after {events : List Store.Event} (h : (after m id s w events).isLive = true) :
    w.isLive = true := by
  cases hlive : w.isLive with
  | true => rfl
  | false =>
    rw [(after_of_not_live events hlive).2.1] at h
    exact h

end Watch

theorem Table.SameRows.trans {a b c : Table} (h : SameRows a b) (h' : SameRows b c) :
    SameRows a c :=
  forall₂_trans (fun _ _ _ h h' => ⟨h.1.trans h'.1, Values.same_trans h.2 h'.2⟩) h h'

variable {models : Model → Prop} {m : Model} {id : Nat}

/-- A version of a table that was told, and that became the table of a store with no row changed
since. -/
structure Table.IsCurrent (m : Model) (s : Store) (old : Table) : Prop where
  ordered : old.Ordered
  proper : ∀ row ∈ old.values, row.Proper
  descends : old.Descends none (s.tables.table m.typeName)
  sameRows : old.SameRows (s.tables.table m.typeName)

theorem Table.isCurrent_table (hmodels : ∀ m, models m → m.Sound) (m : Model) {s : Store}
    (hs : View.Sound models s.tables.table) : (s.tables.table m.typeName).IsCurrent m s where
  ordered := (hs m.typeName).ordered
  proper := fun _ hrow => (hs m.typeName).proper hmodels hrow
  descends := (hs m.typeName).ordered.descends_self
  sameRows := Table.sameRows_self hmodels (hs m.typeName)

/-- By an event a version that is current stays so and nothing is sent, or the next version is
told to an observer with a live subscription. -/
theorem Table.IsCurrent.step (hmodels : ∀ m, models m → m.Sound) {s : Store}
    (hs : View.Sound models s.tables.table) {e : Event} (he : e.Typed models) {old : Table}
    (h : old.IsCurrent m s) {w : Watch} (hlive : w.isLive = true) :
    (old.IsCurrent m (s.step e) ∧ (w.step m id s e).sent = w.sent) ∨
      ∃ c : Change, c.Tells m old ((s.step e).tables.table m.typeName) ∧
        (w.step m id s e).sent = w.sent ++ [c] ∧
        ((w.step m id s e).isLive = true → c.records?.isSome = true) := by
  have hs' := step_sound hmodels hs he
  have hnext : (s.tables.table m.typeName).Descends none ((s.step e).tables.table m.typeName) := by
    show (s.tables.table m.typeName).Descends none ((s.after [e]).tables.table m.typeName)
    exact after_descends hmodels (fun _ _ _ _ h => by cases h)
      (fun e' he' => List.mem_singleton.mp he' ▸ he) hs
  have hdescends := h.descends.trans h.ordered hnext
  by_cases hquiet : (s.tables.table m.typeName).SameRows ((s.step e).tables.table m.typeName)
  · left
    have hnews : s.news m (s.step e) = none := if_pos hquiet
    refine ⟨⟨h.ordered, h.proper, hdescends, h.sameRows.trans hquiet⟩, ?_⟩
    rw [Watch.sent_step, hnews, Watch.send]
  · right
    -- the script is taken from the version before, which no one can tell from the one told last
    have hscript := editScript_changesSince h.ordered (hs' m.typeName).ordered hdescends
    rw [changesSince_congr h.ordered h.proper (fun _ hrow => (hs m.typeName).proper hmodels hrow)
      h.sameRows] at hscript
    have hsent (c : Change) (hnews : s.news m (s.step e) = some c) :
        (w.step m id s e).sent = w.sent ++ [c] ∧
          ((w.step m id s e).isLive = true → c.records?.isSome = true) := by
      rw [Watch.sent_step, Watch.isLive_step, hnews, Watch.send, if_pos hlive]
      exact ⟨rfl, fun h => (Bool.and_eq_true_iff.mp h).1⟩
    cases hrecords : (s.step e).objects m with
    | ok records =>
      have hnews : s.news m (s.step e) = some (.update records
          (((s.step e).tables.table m.typeName).changesSince (s.tables.table m.typeName))) := by
        rw [news, if_neg hquiet, hrecords]
      exact ⟨.update records _, ⟨hrecords, hscript⟩, hsent _ hnews⟩
    | error error =>
      have hnews : s.news m (s.step e) = some (.error error) := by
        rw [news, if_neg hquiet, hrecords]
      exact ⟨.error error, hrecords, hsent _ hnews⟩

/-- What is sent while events happen tells the versions of the table one after the other, and the
last one that was told is current as long as the subscription lives. -/
theorem Watch.tellAll_after (hmodels : ∀ m, models m → m.Sound) :
    ∀ (events : List Event) (s : Store) (w : Watch) (old : Table),
      (∀ e ∈ events, e.Typed models) → View.Sound models s.tables.table →
      (w.isLive = true → old.IsCurrent m s) →
      ∃ changes, (Watch.after m id s w events).sent = w.sent ++ changes ∧
        TellAll m old changes (Watch.versions m id s w events) ∧
        ((Watch.after m id s w events).isLive = true →
          (∀ c ∈ changes, c.records?.isSome = true) ∧
          ((Watch.versions m id s w events).getLastD old).IsCurrent m (s.after events))
  | [], s, w, old, _, _, hcurrent =>
    ⟨[], (List.append_nil _).symm, .nil old, fun hlive => ⟨by simp, hcurrent hlive⟩⟩
  | e :: rest, s, w, old, hevents, hs, hcurrent => by
    have he := hevents e (List.mem_cons_self ..)
    have hs' := step_sound hmodels hs he
    have hrest : ∀ e ∈ rest, e.Typed models := fun e he => hevents e (List.mem_cons_of_mem _ he)
    cases hlive : w.isLive with
    | false =>
      obtain ⟨hsent, hlive', hversions⟩ := @after_of_not_live m id s w (e :: rest) hlive
      rw [hsent, hversions]
      exact ⟨[], (List.append_nil _).symm, .nil old, fun h => by rw [hlive'] at h; cases h⟩
    | true =>
      rcases (hcurrent hlive).step hmodels hs he hlive with ⟨hstill, hsent⟩ | ⟨c, hc, hsent, herror⟩
      · obtain ⟨changes, hchanges, htells, hlast⟩ := tellAll_after hmodels rest (s.step e)
          (w.step m id s e) old hrest hs' fun _ => hstill
        rw [versions, hsent, if_neg (Nat.lt_irrefl _)]
        exact ⟨changes, by rw [Watch.after, hchanges, hsent], htells, hlast⟩
      · obtain ⟨changes, hchanges, htells, hlast⟩ := tellAll_after hmodels rest (s.step e)
          (w.step m id s e) ((s.step e).tables.table m.typeName) hrest hs'
          fun _ => Table.isCurrent_table hmodels m hs'
        rw [versions, hsent, if_pos (by simp)]
        refine ⟨c :: changes, ?_, .cons hc htells, fun hlive' => ?_⟩
        · rw [Watch.after, hchanges, hsent, List.append_assoc]
          rfl
        · obtain ⟨hreadable, hlast'⟩ := hlast hlive'
          rw [List.getLastD_cons]
          exact ⟨List.forall_mem_cons.mpr ⟨herror (isLive_of_after hlive'), hreadable⟩, hlast'⟩

/-- The versions that are told have rows that text can express. -/
theorem Watch.proper_of_mem_versions (hmodels : ∀ m, models m → m.Sound) :
    ∀ (events : List Event) (s : Store) (w : Watch), (∀ e ∈ events, e.Typed models) →
      View.Sound models s.tables.table → ∀ t ∈ Watch.versions m id s w events,
        ∀ row ∈ t.values, row.Proper
  | [], _, _, _, _, _, ht => absurd ht List.not_mem_nil
  | e :: rest, s, w, hevents, hs, t, ht => by
    have hs' := step_sound hmodels hs (hevents e (List.mem_cons_self ..))
    have hrest := proper_of_mem_versions hmodels rest (s.step e) (w.step m id s e)
      (fun e he => hevents e (List.mem_cons_of_mem _ he)) hs'
    rw [versions] at ht
    split at ht
    · rcases List.mem_cons.mp ht with rfl | ht
      · exact fun row hrow => (hs' m.typeName).proper hmodels hrow
      · exact hrest t ht
    · exact hrest t ht

def Model.ReadsLike (m : Model) (r : Record) (row : Values) : Prop :=
  ∃ row', row'.Proper ∧ m.fromValues row' = .ok r ∧ row'.same row = true

/-- Records are read from their rows and so are stored like them. -/
theorem Table.readsLike_records {t : Table} {records : List Record}
    (hproper : ∀ row ∈ t.values, row.Proper) (h : t.records m = .ok records) :
    List.Forall₂ m.ReadsLike records t.values := by
  have hread := Table.records_eq_ok.mp h
  clear h
  generalize t.values = rows at hproper hread ⊢
  induction hread with
  | nil => exact .nil
  | cons hhead _ ih =>
    obtain ⟨hfirst, hrest⟩ := List.forall_mem_cons.mp hproper
    exact .cons ⟨_, hfirst, hhead, Values.same_self hfirst⟩ (ih hrest)

/-- Who follows changes that tell versions of a table, on the records of the version before them,
holds the records of the last one. -/
theorem TellAll.held {old : Table} {changes : List Change} {versions : List Table}
    (h : TellAll m old changes versions) (hproper : ∀ t ∈ versions, ∀ row ∈ t.values, row.Proper)
    (hreadable : ∀ c ∈ changes, c.records?.isSome = true) {held : List Record}
    (hheld : List.Forall₂ m.ReadsLike held old.values) :
    List.Forall₂ m.ReadsLike (changes.foldl Change.applyTo held)
      (versions.getLastD old).values := by
  induction h generalizing held with
  | nil => exact hheld
  | @cons old t c changes versions hfirst _ ih =>
    obtain ⟨hproper, hproper'⟩ := List.forall_mem_cons.mp hproper
    obtain ⟨hreadable, hreadable'⟩ := List.forall_mem_cons.mp hreadable
    rw [List.foldl_cons, List.getLastD_cons]
    refine ih hproper' hreadable' ?_
    cases c with
    | initial records => exact absurd hfirst id
    | update records indices =>
      refine hfirst.2.follow (fun r before after hr hsame => ?_) hheld
        (Table.readsLike_records hproper hfirst.1)
      obtain ⟨row, hproper, hread, hrow⟩ := hr
      exact ⟨row, hproper, hread, Values.same_trans hrow hsame⟩
    | error e => cases hreadable

def Model.ReadAlike (m : Model) (r r' : Record) : Prop :=
  ∃ row row', m.fromValues row = .ok r ∧ m.fromValues row' = .ok r' ∧ row.same row' = true

/-- Records that were read from rows like those of a table are like those that are listed. -/
theorem Table.IsCurrent.held (hmodels : ∀ m, models m → m.Sound) {s : Store}
    (hs : View.Sound models s.tables.table) {old : Table} (h : old.IsCurrent m s)
    {held : List Record} (hheld : List.Forall₂ m.ReadsLike held old.values) :
    ∃ listed, s.objects m = .ok listed ∧ List.Forall₂ m.ReadAlike held listed := by
  have hrows : List.Forall₂ m.ReadsLike held (s.tables.table m.typeName).values := by
    rw [values, List.forall₂_map_right_iff] at hheld ⊢
    refine forall₂_trans (fun r before after hr hsame => ?_) hheld h.sameRows
    obtain ⟨row, hproper, hread, hrow⟩ := hr
    exact ⟨row, hproper, hread, Values.same_trans hrow hsame.2⟩
  have hlist : s.CanList m := by
    refine canList_iff.mpr fun row hrow => ?_
    obtain ⟨r, -, row', hproper, hread, hsame⟩ := exists_of_forall₂ hrows hrow
    exact Model.canRead_of_same hproper ((hs m.typeName).proper hmodels hrow) hsame ⟨r, hread⟩
  obtain ⟨listed, hlisted⟩ := hlist
  refine ⟨listed, hlisted, forall₂_trans ?_ hrows (Table.records_eq_ok.mp hlisted)⟩
  rintro r row r' ⟨row', -, hread, hsame⟩ hread'
  exact ⟨row', row, hread, hread', hsame⟩

/-- Along every history each change that an observer is sent tells a version of its table, by a
script from the version that was told before. As long as its subscription lives, who has followed
all of them holds records like those that are listed. -/
theorem Store.followed_exactly (identifier : String) {before : List Event}
    (hbefore : ∀ e ∈ before, e.Typed Model.Sound) (m : Model) {id : Nat} {s' : Store}
    (h : (after { identifier := identifier } before).observe m true = (.ok id, s'))
    {later : List Event} (hlater : ∀ e ∈ later, e.Typed Model.Sound) :
    ∃ records, s'.objects m = .ok records ∧
      let start : Watch := { sent := [.initial records] }
      let w := Watch.after m id s' start later
      (s'.after later).Delivers id w ∧
      (∃ changes, w.sent = .initial records :: changes ∧
        TellAll m (s'.tables.table m.typeName) changes (Watch.versions m id s' start later)) ∧
      (w.isLive = true → ∃ listed, (s'.after later).objects m = .ok listed ∧
        List.Forall₂ m.ReadAlike w.held listed) := by
  have hsound := after_sound (fun _ h => h) hbefore (sound_empty _ identifier)
  have hnumbered := numbered_after (fun _ h => h) before { identifier := identifier } hbefore
    (sound_empty _ identifier) rfl
  generalize after { identifier := identifier } before = s at hsound hnumbered h
  obtain ⟨records, hrecords, hdelivers⟩ := delivers_of_observe hsound hnumbered h
  obtain ⟨-, -, htables, -⟩ := observe_eq_ok hnumbered h
  have hs' : View.Sound Model.Sound s'.tables.table := htables ▸ hsound
  have hrecords' : s'.objects m = .ok records := by rw [objects, htables]; exact hrecords
  obtain ⟨changes, hsent, htell, hlast⟩ := @Watch.tellAll_after Model.Sound m id (fun _ h => h)
    later s' { sent := [.initial records] } (s'.tables.table m.typeName) hlater hs'
    fun _ => Table.isCurrent_table (fun _ h => h) m hs'
  refine ⟨records, hrecords', hdelivers later hlater, ⟨changes, hsent, htell⟩, fun hlive => ?_⟩
  obtain ⟨hreadable, hcurrent⟩ := hlast hlive
  have hfirst := Table.readsLike_records (Table.isCurrent_table (fun _ h => h) m hs').proper
    hrecords'
  have hheld := htell.held (Watch.proper_of_mem_versions (fun _ h => h) later s' _ hlater hs')
    hreadable hfirst
  have hfold : (Watch.after m id s' { sent := [.initial records] } later).held =
      changes.foldl Change.applyTo records := by
    rw [Watch.held, hsent]
    rfl
  rw [hfold]
  exact hcurrent.held (fun _ h => h) (after_sound (fun _ h => h) hlater hs') hheld

/-- Another slot, and then the first one taken away and stored again while the other is given a
tag. -/
def Store.slotChanges : List Event := [
  .write (.volatile "db") (.call (.create .slot [("key", .integer 2), ("tags", .array [])])
    fun _ => .finish (.ok ())),
  .write (.volatile "db") (.call (.delete .slot (.primaryKey (.integer 1)))
    fun _ => .call (.modify .slot (.primaryKey (.integer 2))
      fun r => r.set "tags" (.list [.string "blue"]))
    fun _ => .call (.create .slot [("key", .integer 1), ("tags", .array [])])
    fun _ => .finish (.ok ()))]

theorem Store.typed_slotChanges : ∀ e ∈ slotChanges, e.Typed Model.Sound := by
  have hslot : Model.slot.Sound := Model.sound_of_ofName "Slot" rfl
  have htags (r : Record) (hr : Model.slot.Admits r) :
      Model.slot.Admits (r.set "tags" (.list [.string "blue"])) :=
    Model.admits_set hslot rfl hr (f := { name := "tags", type := .list .string })
      (by simp [Model.slot]) (.inl ⟨.string, rfl, rfl, trivial⟩)
  intro e he
  rcases List.mem_cons.mp he with rfl | he
  · exact ⟨⟨hslot, by decide, rfl, trivial, trivial⟩, fun _ _ => trivial⟩
  · obtain rfl := List.mem_singleton.mp he
    exact ⟨hslot, fun _ _ => ⟨⟨hslot, htags⟩,
      fun _ _ => ⟨⟨hslot, by decide, rfl, trivial, trivial⟩, fun _ _ => trivial⟩⟩⟩

/-- An observer of slots is sent three changes, and who follows them holds the slots there are. -/
theorem Store.followed_exactly_slotChanges :
    (∀ e ∈ slotHistory, e.Typed Model.Sound) ∧ (∀ e ∈ slotChanges, e.Typed Model.Sound) ∧
    ∃ s' records, (after { identifier := "db" } slotHistory).observe .slot true = (.ok 1, s') ∧
      let w := Watch.after .slot 1 s' { sent := [.initial records] } slotChanges
      w.sent.length = 3 ∧ ∃ listed, (s'.after slotChanges).objects .slot = .ok listed ∧
        List.Forall₂ Model.slot.ReadAlike w.held listed := by
  obtain ⟨records, hrecords, -, -, hheld⟩ :=
    followed_exactly "db" typed_slotHistory .slot rfl typed_slotChanges
  cases hrecords
  exact ⟨typed_slotHistory, typed_slotChanges, _, _, rfl, rfl, hheld rfl⟩

end RecordStore
