import RecordStore.Proofs.Session.Operation
import RecordStore.Proofs.Session.Process
import RecordStore.Proofs.Store.Later

/-!
What can become of a process in which nothing waits. Every actor is still there and stays closed
once it was, every observer is still there, and an actor holds the tokens of the observers that it
started for as long as they are valid and it is not closed. Each step that a process can take keeps
that, the dropping of what nothing refers to included.
-/
namespace RecordStore

/-- What an actor can become. -/
structure Actor.Later (a a' : Actor) : Prop where
  model : a'.model = a.model
  store : a'.store = a.store
  closed : a.isClosed = true → a'.isClosed = true

theorem Actor.later_refl (a : Actor) : a.Later a := ⟨rfl, rfl, id⟩

theorem Actor.Later.trans {a a' a'' : Actor} (h : a.Later a') (h' : a'.Later a'') :
    a.Later a'' :=
  ⟨h'.model.trans h.model, h'.store.trans h.store, h'.closed ∘ h.closed⟩

namespace Process

/-- A process in which no lock is held, every actor is on a store, every token that an actor holds
is that of an observer, and no two actors hold the same. -/
structure Orderly (p : Process) : Prop where
  stores : ∀ o ∈ p.stores, o.store.Regular ∧ o.writer = {}
  actors : ∀ a ∈ p.actors, a.serial = {} ∧ a.store < p.stores.length
  tokens : ∀ (n : Nat) (a : Actor) (id : Nat), p.actors[n]? = some a → id ∈ a.tokens →
    ∃ o, p.observer? a.store id = some o
  apart : ∀ (n n' : Nat) (a a' : Actor) (id : Nat), p.actors[n]? = some a →
    p.actors[n']? = some a' → a.store = a'.store → id ∈ a.tokens → id ∈ a'.tokens → n = n'

def Started (p : Process) (n place id : Nat) : Prop :=
  ∃ a o, p.actors[n]? = some a ∧ a.store = place ∧ p.observer? place id = some o ∧
    (o.isInvalidated = true ∨ id ∈ a.tokens ∧ a.isClosed = false)

def IsAlive (p : Process) (n : Nat) : Prop := ∃ a, p.actors[n]? = some a ∧ a.isAlive = true

/-- What a process can become if it drops none of the actors that are kept. -/
structure Later (kept : Nat → Prop) (p p' : Process) : Prop where
  orderly : p'.Orderly
  places : p.stores.length ≤ p'.stores.length
  observer : ∀ place id o, p.observer? place id = some o →
    ∃ o', p'.observer? place id = some o' ∧ o.Later o'
  actor : ∀ (n : Nat) (a : Actor), p.actors[n]? = some a →
    ∃ a', p'.actors[n]? = some a' ∧ a.Later a'
  started : ∀ n place id, p.Started n place id → p'.Started n place id
  alive : ∀ n, kept n → p.IsAlive n → p'.IsAlive n

/-- What a process can become if it drops no actor. -/
abbrev Leads (p p' : Process) : Prop := p.Later (fun _ => True) p'

variable {p p' p'' : Process} {kept : Nat → Prop} {place id n : Nat} {a : Actor} {o : Observer}
  {s s' : Store}

theorem later_refl (hp : p.Orderly) : p.Later kept p :=
  ⟨hp, Nat.le_refl _, fun _ _ o ho => ⟨o, ho, o.later_refl⟩, fun _ a ha => ⟨a, ha, a.later_refl⟩,
    fun _ _ _ => id, fun _ _ => id⟩

theorem Later.mono {kept' : Nat → Prop} (h : p.Later kept p') (hkept : ∀ n, kept' n → kept n) :
    p.Later kept' p' :=
  ⟨h.orderly, h.places, h.observer, h.actor, h.started, fun n hn => h.alive n (hkept n hn)⟩

/-- Two courses of a process, one after the other, are one. -/
theorem Later.trans (h : p.Later kept p') (h' : p'.Later kept p'') : p.Later kept p'' := by
  refine ⟨h'.orderly, h.places.trans h'.places, fun place id o ho => ?_, fun n a ha => ?_,
    fun n place id hs => h'.started n place id (h.started n place id hs),
    fun n hn ha => h'.alive n hn (h.alive n hn ha)⟩
  · obtain ⟨o', ho', hlater⟩ := h.observer place id o ho
    obtain ⟨o'', ho'', hlater'⟩ := h'.observer place id o' ho'
    exact ⟨o'', ho'', hlater.trans hlater'⟩
  · obtain ⟨a', ha', hlater⟩ := h.actor n a ha
    obtain ⟨a'', ha'', hlater'⟩ := h'.actor n a' ha'
    exact ⟨a'', ha'', hlater.trans hlater'⟩

theorem observer_eq (hs : p.store? place = some s) (id : Nat) :
    p.observer? place id = s.observer? id := by
  rw [observer?, hs]
  rfl

theorem store_of_observer (h : p.observer? place id = some o) :
    ∃ s, p.store? place = some s ∧ s.observer? id = some o := Option.bind_eq_some_iff.mp h

theorem regular_of_store (hp : p.Orderly) (hs : p.store? place = some s) : s.Regular := by
  obtain ⟨o, ho, rfl⟩ := Option.map_eq_some_iff.mp hs
  exact (hp.stores o (List.mem_of_getElem? ho)).1

/-- What happens to stores alone. -/
theorem later_of_stores (hp : p.Orderly) (hactors : p'.actors = p.actors)
    (hplaces : p.stores.length ≤ p'.stores.length)
    (hstores : ∀ o ∈ p'.stores, o.store.Regular ∧ o.writer = {})
    (hobserver : ∀ place id o, p.observer? place id = some o →
      ∃ o', p'.observer? place id = some o' ∧ o.Later o') : p.Later kept p' := by
  refine ⟨⟨hstores, fun a ha => ?_, fun n a id ha hid => ?_, hactors ▸ hp.apart⟩, hplaces,
    hobserver, fun n a ha => ⟨a, hactors ▸ ha, a.later_refl⟩, ?_, fun n _ ha => ?_⟩
  · exact (hp.actors a (hactors ▸ ha)).imp_right fun h => h.trans_le hplaces
  · obtain ⟨o, ho⟩ := hp.tokens n a id (hactors ▸ ha) hid
    obtain ⟨o', ho', -⟩ := hobserver _ _ _ ho
    exact ⟨o', ho'⟩
  · rintro n place id ⟨a, o, ha, hplace, ho, hheld⟩
    obtain ⟨o', ho', hlater⟩ := hobserver _ _ _ ho
    exact ⟨a, o', hactors ▸ ha, hplace, ho', hheld.imp_left hlater.invalidated⟩
  · unfold IsAlive
    rw [hactors]
    exact ha

theorem later_updateStore (hp : p.Orderly) {f : OpenStore → OpenStore}
    (hf : ∀ o, p.stores[place]? = some o → o.store.Later (f o).store ∧ (f o).writer = o.writer) :
    p.Later kept (p.updateStore place f) := by
  refine later_of_stores hp rfl (List.length_modify ..).ge (fun o ho => ?_) fun n id o ho => ?_
  · obtain ⟨k, hk⟩ := List.getElem?_of_mem ho
    rw [updateStore, List.getElem?_modify] at hk
    obtain ⟨o', ho', rfl⟩ := Option.map_eq_some_iff.mp hk
    have hold := hp.stores o' (List.mem_of_getElem? ho')
    split
    · next hplace =>
      subst hplace
      exact ⟨(hf o' ho').1.regular hold.1, (hf o' ho').2.trans hold.2⟩
    · exact hold
  · obtain ⟨s, hs, ho'⟩ := store_of_observer ho
    obtain ⟨os, hos, rfl⟩ := Option.map_eq_some_iff.mp hs
    simp only [observer?, store?, updateStore, List.getElem?_modify, hos, Option.map_eq_map,
      Option.map_some, Option.bind_some]
    split
    · next hplace =>
      subst hplace
      exact (hf os hos).1.observer id o ho'
    · exact ⟨o, ho', o.later_refl⟩

theorem later_setStore (hp : p.Orderly) (hs : p.store? place = some s) (h : s.Later s') :
    p.Later kept (p.setStore place s') := by
  refine later_updateStore hp fun o ho => ⟨?_, rfl⟩
  obtain rfl : o.store = s := by
    rw [store?, ho] at hs
    exact Option.some.inj hs
  exact h

theorem later_invalidate (hp : p.Orderly) (place id : Nat) :
    p.Later kept (p.invalidate place id).2 := by
  unfold invalidate
  split
  · exact later_refl hp
  · next s hs => exact later_setStore hp hs (s.later_invalidate id)

theorem setStore_setStore (p : Process) (place : Nat) (s s' : Store) :
    (p.setStore place s).setStore place s' = p.setStore place s' := by
  simp only [setStore, updateStore, List.modify_modify_eq]
  rfl

theorem setStore_self (hs : p.store? place = some s) : p.setStore place s = p := by
  have hsame : p.stores.modify place ({ · with store := s }) = p.stores := by
    refine modify_eq_self fun o ho => ?_
    rw [store?, ho] at hs
    cases hs
    rfl
  rw [setStore, updateStore, hsame]

theorem invalidateAll_eq (ids : List Nat) (hs : p.store? place = some s) :
    p.invalidateAll place ids = p.setStore place (s.invalidateAll ids) := by
  induction ids generalizing p s with
  | nil => exact (setStore_self hs).symm
  | cons id rest ih =>
    have hfirst : (p.invalidate place id).2 = p.setStore place (s.invalidate id).2 := by
      simp only [invalidate, hs]
    have hs' : (p.setStore place (s.invalidate id).2).store? place = some (s.invalidate id).2 := by
      rw [store_setStore hs, Function.update_self]
    rw [invalidateAll, List.foldl_cons, hfirst, ← invalidateAll, ih hs', setStore_setStore]
    rfl

theorem invalidateAll_of_none (ids : List Nat) (hs : p.store? place = none) :
    p.invalidateAll place ids = p := by
  induction ids with
  | nil => rfl
  | cons id rest ih =>
    rw [invalidateAll, List.foldl_cons]
    simp only [invalidate, hs]
    exact ih

theorem actors_invalidateAll (p : Process) (place : Nat) (ids : List Nat) :
    (p.invalidateAll place ids).actors = p.actors := by
  cases hs : p.store? place with
  | none => rw [invalidateAll_of_none ids hs]
  | some s => rw [invalidateAll_eq ids hs]; rfl

theorem observer_setStore (hs : p.store? place = some s) (s' : Store) (n id : Nat) :
    (p.setStore place s').observer? n id =
      if n = place then s'.observer? id else p.observer? n id := by
  rw [observer?, store_setStore hs, Function.update_apply]
  split
  · rfl
  · rfl

/-- What ending some tokens makes of an observer. -/
theorem observer_invalidateAll (place : Nat) (ids : List Nat) (h : p.observer? n id = some o) :
    (p.invalidateAll place ids).observer? n id =
      some (if n = place ∧ id ∈ ids then o.invalidate else o) := by
  cases hs : p.store? place with
  | none =>
    have hne : n ≠ place := by
      rintro rfl
      obtain ⟨s, hs', -⟩ := store_of_observer h
      exact nomatch hs.symm.trans hs'
    simp [invalidateAll_of_none ids hs, h, hne]
  | some s =>
    rw [invalidateAll_eq ids hs, observer_setStore hs]
    by_cases hn : n = place
    · subst hn
      rw [observer_eq hs] at h
      simp [Store.observer_invalidateAll h, Store.subscription_of_observer h]
    · simp [hn, h]

theorem actors_updateActor {f : Actor → Actor} {k : Nat} {a' : Actor}
    (h : (p.updateActor n f).actors[k]? = some a') :
    ∃ a, p.actors[k]? = some a ∧ a' = if n = k then f a else a := by
  rw [updateActor, List.getElem?_modify] at h
  obtain ⟨a, ha, rfl⟩ := Option.map_eq_some_iff.mp h
  exact ⟨a, ha, by split <;> rfl⟩

/-- What happens to one actor. It gives up no valid token, and takes only new ones. -/
theorem later_updateActor (hp : p.Orderly) {f : Actor → Actor}
    (hlater : ∀ a, p.actors[n]? = some a → a.Later (f a) ∧ (f a).serial = a.serial)
    (hnew : ∀ a, p.actors[n]? = some a → ∀ id ∈ (f a).tokens, id ∉ a.tokens →
      (∃ o, p.observer? a.store id = some o) ∧
        ∀ (k : Nat) (a' : Actor), p.actors[k]? = some a' → a'.store = a.store → id ∉ a'.tokens)
    (hold : ∀ a, p.actors[n]? = some a → ∀ id ∈ a.tokens, a.isClosed = false →
      ∀ o, p.observer? a.store id = some o →
        o.isInvalidated = true ∨ id ∈ (f a).tokens ∧ (f a).isClosed = false)
    (halive : kept n → ∀ a, p.actors[n]? = some a → a.isAlive = true → (f a).isAlive = true) :
    p.Later kept (p.updateActor n f) := by
  have hactor : ∀ (k : Nat) (a : Actor), p.actors[k]? = some a →
      (p.updateActor n f).actors[k]? = some (if n = k then f a else a) := by
    intro k a ha
    rw [updateActor, List.getElem?_modify, ha]
    split <;> rfl
  have hstore : ∀ (k : Nat) (a : Actor), p.actors[k]? = some a →
      (if n = k then f a else a).store = a.store := by
    intro k a ha
    split
    · next hk => exact (hlater a (hk ▸ ha)).1.store
    · rfl
  -- a token of an actor that it did not hold before is new to all
  have htokens : ∀ (k : Nat) (a : Actor), p.actors[k]? = some a →
      ∀ id ∈ (if n = k then f a else a).tokens, id ∉ a.tokens → n = k ∧
        (∃ o, p.observer? a.store id = some o) ∧
          ∀ (k' : Nat) (a' : Actor), p.actors[k']? = some a' → a'.store = a.store →
            id ∉ a'.tokens := by
    intro k a ha id hid hnot
    split at hid
    · next hk =>
      subst hk
      exact ⟨rfl, hnew a ha id hid hnot⟩
    · exact absurd hid hnot
  refine ⟨⟨hp.stores, fun a' ha' => ?_, fun k a' id ha' hid => ?_,
    fun k k' a₁ a₂ id h₁ h₂ hsame hid₁ hid₂ => ?_⟩, Nat.le_refl _,
    fun _ _ o ho => ⟨o, ho, o.later_refl⟩, fun k a ha => ⟨_, hactor k a ha, ?_⟩, ?_, ?_⟩
  · obtain ⟨k, hk⟩ := List.getElem?_of_mem ha'
    obtain ⟨a, ha, rfl⟩ := actors_updateActor hk
    obtain ⟨hserial, hplace⟩ := hp.actors a (List.mem_of_getElem? ha)
    refine ⟨?_, (hstore k a ha).symm ▸ hplace⟩
    split
    · next hk =>
      subst hk
      exact (hlater a ha).2.trans hserial
    · exact hserial
  · obtain ⟨a, ha, rfl⟩ := actors_updateActor ha'
    rw [hstore k a ha]
    by_cases hold : id ∈ a.tokens
    · exact hp.tokens k a id ha hold
    · exact (htokens k a ha id hid hold).2.1
  · obtain ⟨a, ha, rfl⟩ := actors_updateActor h₁
    obtain ⟨a', ha', rfl⟩ := actors_updateActor h₂
    rw [hstore k a ha, hstore k' a' ha'] at hsame
    by_cases hin : id ∈ a.tokens
    · by_cases hin' : id ∈ a'.tokens
      · exact hp.apart k k' a a' id ha ha' hsame hin hin'
      · exact absurd hin ((htokens k' a' ha' id hid₂ hin').2.2 k a ha hsame)
    · by_cases hin' : id ∈ a'.tokens
      · exact absurd hin' ((htokens k a ha id hid₁ hin).2.2 k' a' ha' hsame.symm)
      · exact (htokens k a ha id hid₁ hin).1.symm.trans (htokens k' a' ha' id hid₂ hin').1
  · split
    · next hk =>
      subst hk
      exact (hlater a ha).1
    · exact a.later_refl
  · rintro k place id ⟨a, o, ha, rfl, ho, hheld⟩
    refine ⟨_, o, hactor k a ha, hstore k a ha, ho, ?_⟩
    rcases hheld with hinvalidated | ⟨hid, hopen⟩
    · exact .inl hinvalidated
    · split
      · next hk =>
        subst hk
        exact hold a ha id hid hopen o ho
      · exact .inr ⟨hid, hopen⟩
  · rintro k hk ⟨a, ha, h⟩
    refine ⟨_, hactor k a ha, ?_⟩
    split
    · next hk' =>
      subst hk'
      exact halive hk a ha h
    · exact h

theorem invalidateAll_updateActor (p : Process) (n : Nat) (f : Actor → Actor) (place : Nat)
    (ids : List Nat) :
    (p.updateActor n f).invalidateAll place ids = (p.invalidateAll place ids).updateActor n f := by
  cases hs : p.store? place with
  | none => rw [invalidateAll_of_none ids hs, invalidateAll_of_none (p := p.updateActor n f) ids hs]
  | some s => rw [invalidateAll_eq ids hs, invalidateAll_eq (p := p.updateActor n f) ids hs]; rfl

theorem later_invalidateAll (hp : p.Orderly) (place : Nat) (ids : List Nat) :
    p.Later kept (p.invalidateAll place ids) := by
  cases hs : p.store? place with
  | none =>
    rw [invalidateAll_of_none ids hs]
    exact later_refl hp
  | some s =>
    rw [invalidateAll_eq ids hs]
    exact later_setStore hp hs (s.later_invalidateAll ids)

/-- An actor that gives up all its tokens ends them. -/
theorem later_retire (hp : p.Orderly) (ha : p.actors[n]? = some a) {f : Actor → Actor}
    (hlater : a.Later (f a)) (hserial : (f a).serial = a.serial) (htokens : (f a).tokens = [])
    (halive : kept n → a.isAlive = true → (f a).isAlive = true) :
    p.Later kept ((p.updateActor n f).invalidateAll a.store a.tokens) := by
  have hinvalidated : p.Later kept (p.invalidateAll a.store a.tokens) :=
    later_invalidateAll hp a.store a.tokens
  have hactors := actors_invalidateAll p a.store a.tokens
  have hsame : ∀ a', (p.invalidateAll a.store a.tokens).actors[n]? = some a' → a' = a := by
    intro a' ha'
    rw [hactors, ha] at ha'
    exact (Option.some.inj ha').symm
  rw [invalidateAll_updateActor]
  refine hinvalidated.trans (later_updateActor hinvalidated.orderly (fun a' ha' => ?_)
    (fun a' ha' id hid => ?_) (fun a' ha' id hid _ o ho => ?_) fun hn a' ha' => ?_)
  · obtain rfl := hsame a' ha'
    exact ⟨hlater, hserial⟩
  · obtain rfl := hsame a' ha'
    rw [htokens] at hid
    cases hid
  · obtain rfl := hsame a' ha'
    obtain ⟨o', ho'⟩ := hp.tokens n a' id ha hid
    rw [observer_invalidateAll _ _ ho', if_pos ⟨rfl, hid⟩] at ho
    obtain rfl := Option.some.inj ho
    exact .inl o'.isInvalidated_invalidate
  · obtain rfl := hsame a' ha'
    exact halive hn

theorem later_close (hp : p.Orderly) (n : Nat) : p.Later kept (p.close n) := by
  unfold close
  cases ha : p.actors[n]? with
  | none => exact later_refl hp
  | some a =>
    simp only
    split
    · exact later_refl hp
    · exact later_retire (f := ({ · with isClosed := true, tokens := [] })) hp ha
        ⟨rfl, rfl, fun _ => rfl⟩ rfl rfl fun _ => id

theorem later_dropActor (hp : p.Orderly) (hn : ¬ kept n) : p.Later kept (p.dropActor n) := by
  unfold dropActor
  cases ha : p.actors[n]? with
  | none => exact later_refl hp
  | some a =>
    simp only
    split
    · exact later_retire (f := ({ · with isAlive := false, tokens := [] })) hp ha
        ⟨rfl, rfl, id⟩ rfl rfl fun hkept => absurd hkept hn
    · exact later_refl hp

theorem later_dropStore (hp : p.Orderly) (place : Nat) : p.Later kept (p.dropStore place) :=
  later_updateStore hp fun o _ => ⟨o.store.later_discard, rfl⟩

/-- What dropping keeps is what every drop of an actor or a store keeps. -/
theorem later_foldl {f : Process → Nat → Process}
    (hf : ∀ q : Process, q.Orderly → ∀ k, q.Later kept (f q k)) (places : List Nat)
    (hp : p.Orderly) : p.Later kept (places.foldl f p) := by
  induction places generalizing p with
  | nil => exact later_refl hp
  | cons k rest ih => exact (hf p hp k).trans (ih (hf p hp k).orderly)

/-- Dropping what nothing refers to drops no actor that a root keeps. -/
theorem later_collect (hp : p.Orderly) (roots : List Root) :
    p.Later (Root.actor · ∈ roots) (p.collect roots) := by
  have hactors : p.Later (Root.actor · ∈ roots) ((List.range p.actors.length).foldl
      (fun p k => if roots.contains (.actor k) then p else p.dropActor k) p) := by
    refine later_foldl (fun q hq k => ?_) _ hp
    split
    · exact later_refl hq
    · next hk => exact later_dropActor hq fun h => hk (List.contains_iff_mem.mpr h)
  refine hactors.trans (later_foldl (fun q hq k => ?_) _ hactors.orderly)
  split
  · split
    · exact later_dropStore hq k
    · exact later_refl hq
  · exact later_refl hq

/-- A subscription that was just started is held by its actor. -/
theorem later_remember (hp : p.Orderly) (ha : p.actors[n]? = some a)
    (ho : ∃ o, p.observer? a.store id = some o)
    (hnew : ∀ (k : Nat) (a' : Actor), p.actors[k]? = some a' → a'.store = a.store →
      id ∉ a'.tokens) :
    p.Later kept (p.remember n id) := by
  have hsame : ∀ a', p.actors[n]? = some a' → a' = a := fun a' ha' =>
    Option.some.inj (ha'.symm.trans ha)
  refine later_updateActor hp (fun a' _ => ⟨⟨rfl, rfl, fun h => h⟩, rfl⟩)
    (fun a' ha' id' hid hnot => ?_) (fun a' ha' id' hid hopen o ho => ?_) fun _ _ _ h => h
  · obtain rfl := hsame a' ha'
    rcases List.mem_append.mp hid with hid | hid
    · exact absurd (List.mem_filter.mp hid).1 hnot
    · obtain rfl := List.mem_singleton.mp hid
      exact ⟨ho, hnew⟩
  · cases hinvalidated : o.isInvalidated with
    | true => exact .inl rfl
    | false =>
      refine .inr ⟨List.mem_append_left _ (List.mem_filter.mpr ⟨hid, ?_⟩), hopen⟩
      simp [ho, hinvalidated]

/-- Opening a store changes none that is open. -/
theorem later_openStore (hp : p.Orderly) (c : Configuration) :
    p.Later kept (p.openStore c).2 := by
  unfold openStore
  split
  · exact later_updateStore hp fun o _ => ⟨o.store.later_refl, rfl⟩
  · refine later_of_stores hp rfl (by simp) (fun o ho => ?_)
      fun place id o ho => ⟨o, ?_, o.later_refl⟩
    · rcases List.mem_append.mp ho with ho | ho
      · exact hp.stores o ho
      · obtain rfl := List.mem_singleton.mp ho
        exact ⟨Store.regular_empty _, rfl⟩
    · obtain ⟨s, hs, ho'⟩ := store_of_observer ho
      obtain ⟨os, hos, rfl⟩ := Option.map_eq_some_iff.mp hs
      have hlt : place < p.stores.length := (List.getElem?_eq_some_iff.mp hos).1
      simp only [observer?, store?, List.getElem?_append_left hlt, hos, Option.map_some,
        Option.bind_some, ho']

/-- A new actor changes no other, and holds no observation. -/
theorem later_addActor (hp : p.Orderly) (a : Actor) (htokens : a.tokens = [])
    (hserial : a.serial = {}) (hplace : a.store < p.stores.length) :
    p.Later kept { p with actors := p.actors ++ [a] } := by
  have hactor : ∀ (k : Nat) (a' : Actor), p.actors[k]? = some a' →
      (p.actors ++ [a])[k]? = some a' := fun k a' ha' =>
    (List.getElem?_append_left (List.getElem?_eq_some_iff.mp ha').1).trans ha'
  -- the new actor holds no token
  have hholds : ∀ (k : Nat) (a' : Actor) (id : Nat), (p.actors ++ [a])[k]? = some a' →
      id ∈ a'.tokens → p.actors[k]? = some a' := by
    intro k a' id ha' hid
    rcases Nat.lt_or_ge k p.actors.length with hlt | hge
    · rwa [List.getElem?_append_left hlt] at ha'
    · rw [List.getElem?_append_right hge] at ha'
      obtain rfl := List.mem_singleton.mp (List.mem_of_getElem? ha')
      rw [htokens] at hid
      cases hid
  refine ⟨⟨hp.stores, fun a' ha' => ?_, fun k a' id ha' hid => ?_,
    fun k k' a₁ a₂ id h₁ h₂ hsame hid₁ hid₂ => ?_⟩, Nat.le_refl _,
    fun _ _ o ho => ⟨o, ho, o.later_refl⟩,
    fun k a' ha' => ⟨a', hactor k a' ha', a'.later_refl⟩, ?_, ?_⟩
  · rcases List.mem_append.mp ha' with ha' | ha'
    · exact hp.actors a' ha'
    · obtain rfl := List.mem_singleton.mp ha'
      exact ⟨hserial, hplace⟩
  · exact hp.tokens k a' id (hholds k a' id ha' hid) hid
  · exact hp.apart k k' a₁ a₂ id (hholds k a₁ id h₁ hid₁) (hholds k' a₂ id h₂ hid₂) hsame hid₁ hid₂
  · rintro k place id ⟨a', o, ha', hplace, ho, hheld⟩
    exact ⟨a', o, hactor k a' ha', hplace, ho, hheld⟩
  · rintro k - ⟨a', ha', halive⟩
    exact ⟨a', hactor k a' ha', halive⟩

theorem actor_openActor (p : Process) (m : Model) (c : Configuration) :
    (p.openActor m c).2.actors[(p.openActor m c).1]? =
      some { model := m, store := (p.openStore c).1, configuration := c } :=
  List.getElem?_concat_length

theorem openStore_lt (p : Process) (c : Configuration) :
    (p.openStore c).1 < (p.openStore c).2.stores.length := by
  obtain ⟨o, ho, -⟩ := (p.opened_openStore c).store
  exact (List.getElem?_eq_some_iff.mp ho).1

theorem later_openActor (hp : p.Orderly) (m : Model) (c : Configuration) :
    p.Later kept (p.openActor m c).2 :=
  have hopened : p.Later kept (p.openStore c).2 := later_openStore hp c
  hopened.trans (later_addActor hopened.orderly _ rfl rfl (p.openStore_lt c))

theorem orderly_initial : initial.Orderly := by
  refine ⟨fun o ho => ?_, fun _ ha => absurd ha List.not_mem_nil,
    fun _ _ _ ha => (nomatch ha), fun _ _ _ _ _ ha => (nomatch ha)⟩
  obtain rfl := List.mem_singleton.mp ho
  exact ⟨Store.regular_empty _, rfl⟩

end Process

end RecordStore
