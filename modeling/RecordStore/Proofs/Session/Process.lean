import RecordStore.Proofs.Store.ListStore
import RecordStore.Session.Process

/-!
Processes in which nothing waits. Opening a store joins the one that is open under the identifier
and changes no records. Dropping what nothing refers to keeps every store that something refers to,
or that is kept, and every actor among the roots.
-/
namespace RecordStore

theorem modify_congr {α : Type} {l : List α} {n : Nat} {f g : α → α}
    (h : ∀ a, l[n]? = some a → f a = g a) : l.modify n f = l.modify n g := by
  refine List.ext_getElem? fun k => ?_
  rw [List.getElem?_modify, List.getElem?_modify]
  by_cases hk : n = k
  · subst hk
    cases ha : l[n]? with
    | none => rfl
    | some a => simp [h a ha]
  · simp [hk]

theorem modify_eq_self {α : Type} {l : List α} {n : Nat} {f : α → α}
    (h : ∀ a, l[n]? = some a → f a = a) : l.modify n f = l := by
  refine (modify_congr (g := id) h).trans ?_
  refine List.ext_getElem? fun k => ?_
  rw [List.getElem?_modify]
  simp

theorem mem_modify {α : Type} {l : List α} {n : Nat} {f : α → α} {b : α} (h : b ∈ l.modify n f) :
    b ∈ l ∨ ∃ a ∈ l, b = f a := by
  obtain ⟨k, hk⟩ := List.getElem?_of_mem h
  rw [List.getElem?_modify] at hk
  obtain ⟨a, ha, hb⟩ := Option.map_eq_some_iff.mp hk
  have hmem : a ∈ l := List.mem_of_getElem? ha
  split at hb
  · exact .inr ⟨a, hmem, hb.symm⟩
  · exact .inl (hb ▸ hmem)

/-- What is not seen is not seen in the list. -/
theorem map_modify_eq {α β : Type} {l : List α} {n : Nat} {f : α → α} {g : α → β}
    (h : ∀ a, l[n]? = some a → g (f a) = g a) : (l.modify n f).map g = l.map g := by
  refine List.ext_getElem? fun k => ?_
  rw [List.getElem?_map, List.getElem?_map, List.getElem?_modify]
  by_cases hk : n = k
  · subst hk
    cases ha : l[n]? with
    | none => rfl
    | some a => simp [h a ha]
  · simp [hk]

/-- What is not changed where it is tested is found where it was. -/
theorem findIdx_modify {α : Type} {l : List α} {n : Nat} {f : α → α} {test : α → Bool}
    (h : ∀ a, l[n]? = some a → test (f a) = test a) :
    (l.modify n f).findIdx? test = l.findIdx? test := by
  have hfind (l : List α) : l.findIdx? test = (l.map test).findIdx? id := by
    rw [List.findIdx?_map]
    rfl
  rw [hfind, hfind, map_modify_eq h]

/-- What is found is still found when something else stops satisfying the test. -/
theorem findIdx_modify_false {α : Type} {l : List α} {n : Nat} {f : α → α} {test : α → Bool}
    (hf : ∀ a, test (f a) = false) (hn : l.findIdx? test ≠ some n) :
    (l.modify n f).findIdx? test = l.findIdx? test := by
  cases hk : l.findIdx? test with
  | none =>
    rw [List.findIdx?_eq_none_iff] at hk ⊢
    intro b hb
    rcases mem_modify hb with hb | ⟨a, -, rfl⟩
    · exact hk b hb
    · exact hf a
  | some k =>
    have hne : n ≠ k := fun h => hn (h ▸ hk)
    obtain ⟨hlt, htest, hbefore⟩ := List.findIdx?_eq_some_iff_getElem.mp hk
    refine List.findIdx?_eq_some_iff_getElem.mpr ⟨by simpa using hlt, ?_, fun j hj => ?_⟩
    · simpa [List.getElem_modify, hne] using htest
    · have hj' := hbefore j hj
      rw [List.getElem_modify]
      split
      · simp [hf]
      · exact hj'

namespace Process

/-- A process in which no lock is held, and no actor is closed or has started an observer. -/
structure Quiet (p : Process) : Prop where
  stores : ∀ o ∈ p.stores, o.writer = {}
  actors : ∀ a ∈ p.actors, a.serial = {} ∧ a.isClosed = false ∧ a.tokens = []

variable {p p' : Process} {identifier : String} {place n : Nat} {roots : List Root}

theorem quiet_initial : initial.Quiet :=
  ⟨fun o ho => by
    obtain rfl := List.mem_singleton.mp ho
    rfl, fun _ ha => absurd ha List.not_mem_nil⟩

theorem Quiet.updateStore (h : p.Quiet) {f : OpenStore → OpenStore}
    (hf : ∀ o, (f o).writer = o.writer) : (p.updateStore place f).Quiet := by
  refine ⟨fun o ho => ?_, h.actors⟩
  rcases mem_modify ho with ho | ⟨o', ho', rfl⟩
  · exact h.stores o ho
  · exact (hf o').trans (h.stores o' ho')

/-- Changing a store but not its identifier leaves it where it is found. -/
theorem find_updateStore {f : OpenStore → OpenStore}
    (hf : ∀ o, p.stores[place]? = some o →
      (f o).isAlive = o.isAlive ∧ (f o).store.identifier = o.store.identifier) :
    (p.updateStore place f).find? identifier = p.find? identifier := by
  refine findIdx_modify fun o ho => ?_
  rw [(hf o ho).1, (hf o ho).2]

/-- A store that is put in the place of one with the same identifier is found where that was. -/
theorem find_setStore {o : OpenStore} (ho : p.stores[place]? = some o) {s : Store}
    (hidentifier : s.identifier = o.store.identifier) :
    (p.setStore place s).find? identifier = p.find? identifier := by
  refine find_updateStore fun o' ho' => ?_
  have hsame : o = o' := Option.some.inj (ho.symm.trans ho')
  subst hsame
  exact ⟨rfl, hidentifier⟩

/-- A later process in which everything is where it was. -/
structure Extends (identifier : String) (p p' : Process) : Prop where
  found : ∀ place, p.find? identifier = some place → p'.find? identifier = some place
  actors : ∀ (n : Nat) (a : Actor), p.actors[n]? = some a → p'.actors[n]? = some a

/-- What opening a store makes of a process. -/
structure Opened (p : Process) (c : Configuration) (place : Nat) (p' : Process) : Prop where
  earlier : Extends c.identifier p p'
  found : p'.find? c.identifier = some place
  store : ∃ o', p'.stores[place]? = some o' ∧ (c.inMemory = false → o'.isKept = true) ∧
    (p.find? c.identifier = none ∧ o'.store = { identifier := c.identifier } ∨
      ∃ o, p.find? c.identifier = some place ∧ p.stores[place]? = some o ∧ o'.store = o.store)
  quiet : p.Quiet → p'.Quiet

/-- Opening finds the store that is open under the identifier, or adds one. -/
theorem opened_openStore (p : Process) (c : Configuration) :
    Opened p c (p.openStore c).1 (p.openStore c).2 := by
  unfold openStore
  cases hfind : p.find? c.identifier with
  | some place =>
    obtain ⟨hlt, -, -⟩ := List.findIdx?_eq_some_iff_getElem.mp hfind
    have hstore : p.stores[place]? = some p.stores[place] := List.getElem?_eq_getElem hlt
    let keep (o : OpenStore) : OpenStore := { o with isKept := o.isKept || !c.inMemory }
    show Opened p c place (p.updateStore place keep)
    have hkeep : (p.updateStore place keep).find? c.identifier = p.find? c.identifier :=
      find_updateStore fun _ _ => ⟨rfl, rfl⟩
    refine ⟨⟨fun place' h => hkeep.trans h, fun _ _ h => h⟩, hkeep.trans hfind,
      ⟨keep p.stores[place], ?_, fun h => ?_, .inr ⟨_, hfind, hstore, rfl⟩⟩,
      fun h => h.updateStore fun _ => rfl⟩
    · simp only [updateStore, List.getElem?_modify_eq, hstore]
      rfl
    · simp [keep, h]
  | none =>
    let opened : OpenStore := { store := { identifier := c.identifier }, isKept := !c.inMemory }
    show Opened p c p.stores.length { p with stores := p.stores ++ [opened] }
    refine ⟨⟨fun place' h => (nomatch hfind.symm.trans h), fun _ _ h => h⟩, ?_,
      ⟨opened, List.getElem?_concat_length, fun h => ?_, .inl ⟨hfind, rfl⟩⟩,
      fun h => ⟨fun o ho => ?_, h.actors⟩⟩
    · unfold find? at hfind ⊢
      rw [List.findIdx?_append, hfind]
      simp [opened]
    · simp [opened, h]
    · rcases List.mem_append.mp ho with ho | ho
      · exact h.stores o ho
      · obtain rfl := List.mem_singleton.mp ho
        rfl

/-- Opening an actor opens its store and adds the actor. -/
theorem opened_openActor (p : Process) (m : Model) (c : Configuration) :
    ∃ place, Opened p c place (p.openActor m c).2 ∧
      (p.openActor m c).2.actors[(p.openActor m c).1]? =
        some { model := m, store := place, configuration := c } := by
  have h := p.opened_openStore c
  unfold openActor
  rcases hopen : p.openStore c with ⟨place, p'⟩
  rw [hopen] at h
  have h : Opened p c place p' := h
  refine ⟨place, ⟨⟨h.earlier.found, fun n a ha => ?_⟩, h.found, h.store, fun hq =>
    ⟨(h.quiet hq).stores, fun a ha => ?_⟩⟩, List.getElem?_concat_length⟩
  · have ha' := h.earlier.actors n a ha
    have hlt : n < p'.actors.length := (List.getElem?_eq_some_iff.mp ha').1
    exact (List.getElem?_append_left hlt).trans ha'
  · rcases List.mem_append.mp ha with ha | ha
    · exact (h.quiet hq).actors a ha
    · obtain rfl := List.mem_singleton.mp ha
      exact ⟨rfl, rfl, rfl⟩

theorem Quiet.dropActor (h : p.Quiet) (n : Nat) :
    p.dropActor n = p ∨
      p.dropActor n = p.updateActor n ({ · with isAlive := false, tokens := [] }) := by
  unfold Process.dropActor
  cases ha : p.actors[n]? with
  | none => exact .inl rfl
  | some a =>
    have htokens : a.tokens = [] := (h.actors a (List.mem_of_getElem? ha)).2.2
    simp only [htokens]
    split
    · exact .inr rfl
    · exact .inl rfl

/-- What dropping some actors keeps. -/
structure ActorsDropped (roots : List Root) (p p' : Process) : Prop where
  quiet : p'.Quiet
  stores : p'.stores = p.stores
  actors : ∀ n, Root.actor n ∈ roots → p'.actors[n]? = p.actors[n]?

/-- Dropping one more actor keeps those that a root keeps. -/
theorem ActorsDropped.step (h : ActorsDropped roots p p') (n : Nat) :
    ActorsDropped roots p (if roots.contains (.actor n) then p' else p'.dropActor n) := by
  split
  · exact h
  · next hn =>
    rcases h.quiet.dropActor n with hdrop | hdrop
    · rw [hdrop]
      exact h
    · rw [hdrop]
      refine ⟨⟨h.quiet.stores, fun a ha => ?_⟩, h.stores, fun k hk => ?_⟩
      · rcases mem_modify ha with ha | ⟨a', ha', rfl⟩
        · exact h.quiet.actors a ha
        · exact ⟨(h.quiet.actors a' ha').1, (h.quiet.actors a' ha').2.1, rfl⟩
      · have hne : n ≠ k := by
          rintro rfl
          exact hn (List.contains_iff_mem.mpr hk)
        rw [updateActor, List.getElem?_modify_ne _ _ hne]
        exact h.actors k hk

theorem ActorsDropped.foldl (places : List Nat) (h : ActorsDropped roots p p') :
    ActorsDropped roots p (places.foldl
      (fun p n => if roots.contains (.actor n) then p else p.dropActor n) p') := by
  induction places generalizing p' with
  | nil => exact h
  | cons n rest ih => exact ih (h.step n)

/-- What dropping some stores keeps: one store, and where it is found. -/
structure StoresDropped (identifier : String) (p p' : Process) : Prop where
  quiet : p'.Quiet
  actors : p'.actors = p.actors
  find : p'.find? identifier = p.find? identifier
  store : ∀ place, p.find? identifier = some place → p'.stores[place]? = p.stores[place]?

theorem StoresDropped.drop (h : StoresDropped identifier p p')
    (hn : p.find? identifier ≠ some n) : StoresDropped identifier p (p'.dropStore n) := by
  refine ⟨h.quiet.updateStore fun _ => rfl, h.actors, ?_, fun place hplace => ?_⟩
  · refine Eq.trans (findIdx_modify_false (fun _ => rfl) ?_) h.find
    intro hfound
    exact hn (h.find.symm.trans hfound)
  · have hne : n ≠ place := fun heq => hn (heq ▸ hplace)
    rw [dropStore, updateStore, List.getElem?_modify_ne _ _ hne]
    exact h.store place hplace

def IsHeld (p : Process) (roots : List Root) (place : Nat) : Prop :=
  p.isStoreReferred roots place = true ∨ ∀ o, p.stores[place]? = some o → o.isKept = true

/-- Dropping one more store keeps those that something holds. -/
theorem StoresDropped.step (h : StoresDropped identifier p p')
    (hheld : ∀ place, p.find? identifier = some place → p.IsHeld roots place) (n : Nat) :
    StoresDropped identifier p (match p'.stores[n]? with
      | some o => if o.isAlive && !o.isKept && !p'.isStoreReferred roots n
          then p'.dropStore n else p'
      | none => p') := by
  cases ho : p'.stores[n]? with
  | none => exact h
  | some o =>
    simp only
    split
    · next hdrop =>
      refine h.drop fun hfound => ?_
      simp only [Bool.and_eq_true, Bool.not_eq_true'] at hdrop
      rcases hheld n hfound with hreferred | hkept
      · have hsame : p'.isStoreReferred roots n = p.isStoreReferred roots n := by
          rw [isStoreReferred, isStoreReferred, h.actors]
        rw [hsame, hreferred] at hdrop
        cases hdrop.2
      · rw [h.store n hfound] at ho
        rw [hkept o ho] at hdrop
        cases hdrop.1.2
    · exact h

theorem StoresDropped.foldl (roots : List Root) (places : List Nat)
    (h : StoresDropped identifier p p')
    (hheld : ∀ place, p.find? identifier = some place → p.IsHeld roots place) :
    StoresDropped identifier p (places.foldl (fun p place =>
      match p.stores[place]? with
      | some o => if o.isAlive && !o.isKept && !p.isStoreReferred roots place
          then p.dropStore place else p
      | none => p) p') := by
  induction places generalizing p' with
  | nil => exact h
  | cons n rest ih => exact ih (h.step hheld n)

/-- What is left after dropping what nothing refers to. -/
structure Collected (roots : List Root) (identifier : String) (p p' : Process) : Prop where
  quiet : p'.Quiet
  find : p'.find? identifier = p.find? identifier
  store : ∀ place, p.find? identifier = some place → p'.stores[place]? = p.stores[place]?
  actors : ∀ n, Root.actor n ∈ roots → p'.actors[n]? = p.actors[n]?

/-- A store is held after actors were dropped if a root or an actor among the roots refers to it. -/
theorem collected_collect (h : p.Quiet)
    (hheld : ∀ place, p.find? identifier = some place →
      (∀ o, p.stores[place]? = some o → o.isKept = true) ∨ Root.store place ∈ roots ∨
        ∃ n a, Root.actor n ∈ roots ∧ p.actors[n]? = some a ∧ a.isAlive = true ∧
          a.store = place) :
    Collected roots identifier p (p.collect roots) := by
  have hactors := ActorsDropped.foldl (List.range p.actors.length)
    (⟨h, rfl, fun _ _ => rfl⟩ : ActorsDropped roots p p)
  unfold collect
  generalize (List.range p.actors.length).foldl
    (fun p n => if roots.contains (.actor n) then p else p.dropActor n) p = p₁ at hactors
  have hfind : p₁.find? identifier = p.find? identifier := by
    rw [find?, find?, hactors.stores]
  have hstores : StoresDropped identifier p₁ _ := StoresDropped.foldl roots
    (List.range p₁.stores.length) (⟨hactors.quiet, rfl, rfl, fun _ _ => rfl⟩) fun place hplace => by
      rcases hheld place (hfind.symm.trans hplace) with
        hkept | hroot | ⟨n, a, hroot, ha, halive, ha'⟩
      · exact .inr (hactors.stores ▸ hkept)
      · exact .inl (by simp [isStoreReferred, hroot])
      · have hmem : a ∈ p₁.actors := List.mem_of_getElem? ((hactors.actors n hroot).trans ha)
        have hany : p₁.actors.any (fun a => a.isAlive && a.store == place) = true :=
          List.any_eq_true.mpr ⟨a, hmem, by simp [halive, ha']⟩
        exact .inl (by simp only [isStoreReferred, hany, Bool.or_true])
  refine ⟨hstores.quiet, hstores.find.trans hfind, fun place hplace => ?_, fun n hn => ?_⟩
  · exact (hstores.store place (hfind.trans hplace)).trans (by rw [hactors.stores])
  · exact (congrArg (·[n]?) hstores.actors).trans (hactors.actors n hn)

end Process

end RecordStore
