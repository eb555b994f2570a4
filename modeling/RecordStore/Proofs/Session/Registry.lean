import RecordStore.Proofs.Session.Footprint

/-!
The stores that are open. At most one store is open under an identifier, the handles that were
opened under the identifier are on it, and it stays open for as long as it is kept or one of them is
left. Opening, everything else that a request does and the dropping of what nothing refers to keep
it so.
-/
namespace RecordStore

namespace Process

variable {p p' p'' : Process} {reach : Nat → Prop} {retained : String → Prop} {k k' n place : Nat}
  {i i' : String} {c : Configuration} {roots : List Root} {a a' : Actor} {o : OpenStore}

def OpenAt (p : Process) (place : Nat) (identifier : String) : Prop :=
  ∃ o, p.stores[place]? = some o ∧ o.isAlive = true ∧ o.store.identifier = identifier

def KeptAt (p : Process) (place : Nat) (identifier : String) : Prop :=
  ∃ o, p.stores[place]? = some o ∧ o.isAlive = true ∧ o.isKept = true ∧
    o.store.identifier = identifier

theorem OpenAt.unique (h : p.OpenAt k i) (h' : p.OpenAt k i') : i = i' := by
  obtain ⟨o, ho, -, rfl⟩ := h
  obtain ⟨o', ho', -, rfl⟩ := h'
  obtain rfl := Option.some.inj (ho.symm.trans ho')
  rfl

theorem KeptAt.openAt (h : p.KeptAt k i) : p.OpenAt k i := by
  obtain ⟨o, ho, halive, -, hidentifier⟩ := h
  exact ⟨o, ho, halive, hidentifier⟩

theorem openAt_of_find (h : p.find? i = some k) : p.OpenAt k i := by
  obtain ⟨hlt, htest, -⟩ := List.findIdx?_eq_some_iff_getElem.mp h
  simp only [Bool.and_eq_true, beq_iff_eq] at htest
  exact ⟨p.stores[k], List.getElem?_eq_getElem hlt, htest.1, htest.2⟩

theorem isSome_find_iff : (p.find? i).isSome ↔ ∃ k, p.OpenAt k i := by
  refine ⟨fun h => ?_, fun ⟨k, o, ho, halive, hidentifier⟩ => ?_⟩
  · obtain ⟨k, hk⟩ := Option.isSome_iff_exists.mp h
    exact ⟨k, openAt_of_find hk⟩
  · rw [find?, List.findIdx?_isSome, List.any_eq_true]
    exact ⟨o, List.mem_of_getElem? ho, by simp [halive, hidentifier]⟩

theorem openAt_iff_card :
    p.OpenAt k i ↔ ∃ isKept, (p.stores.map OpenStore.card)[k]? = some (i, isKept, true) := by
  rw [List.getElem?_map]
  unfold OpenAt OpenStore.card
  cases p.stores[k]? with
  | none => simp
  | some o => simp [and_comm]

theorem keptAt_iff_card :
    p.KeptAt k i ↔ (p.stores.map OpenStore.card)[k]? = some (i, true, true) := by
  rw [List.getElem?_map]
  unfold KeptAt OpenStore.card
  cases p.stores[k]? with
  | none => simp
  | some o => simp [and_comm, and_assoc, and_left_comm]

theorem ModifiesOnly.openAt_iff (h : p.ModifiesOnly reach p') : p'.OpenAt k i ↔ p.OpenAt k i := by
  rw [openAt_iff_card, openAt_iff_card, h.stores]

theorem ModifiesOnly.keptAt_iff (h : p.ModifiesOnly reach p') : p'.KeptAt k i ↔ p.KeptAt k i := by
  rw [keptAt_iff_card, keptAt_iff_card, h.stores]

theorem ModifiesOnly.actor (h : p.ModifiesOnly reach p') (ha' : p'.actors[n]? = some a') :
    ∃ a, p.actors[n]? = some a ∧ a'.card = a.card := by
  have hcards : (p'.actors.map Actor.card)[n]? = (p.actors.map Actor.card)[n]? := by rw [h.actors]
  rw [List.getElem?_map, List.getElem?_map, ha', Option.map_some] at hcards
  obtain ⟨a, ha, hcard⟩ := Option.map_eq_some_iff.mp hcards.symm
  exact ⟨a, ha, hcard.symm⟩

/-- A store that was opened is the one that was open, now perhaps kept, or a new one. -/
theorem openStore_cases (p : Process) (c : Configuration) :
    (∃ o, p.stores[(p.openStore c).1]? = some o ∧ o.isAlive = true ∧
      o.store.identifier = c.identifier ∧
      (p.openStore c).2 = p.updateStore (p.openStore c).1 fun o =>
        { o with isKept := o.isKept || !c.inMemory }) ∨
    p.find? c.identifier = none ∧ (p.openStore c).1 = p.stores.length ∧
      (p.openStore c).2.stores = p.stores ++
        [{ store := { identifier := c.identifier }, isKept := !c.inMemory }] := by
  unfold openStore
  cases hfind : p.find? c.identifier with
  | some place =>
    obtain ⟨o, ho, halive, hidentifier⟩ := openAt_of_find hfind
    exact .inl ⟨o, ho, halive, hidentifier, rfl⟩
  | none => exact .inr ⟨rfl, rfl, rfl⟩

theorem stores_updateStore (p : Process) (place : Nat) (f : OpenStore → OpenStore) (k : Nat) :
    (p.updateStore place f).stores[k]? =
      (p.stores[k]?).map fun o => if place = k then f o else o := by
  rw [updateStore, List.getElem?_modify]
  split <;> rfl

theorem getElem_concat {α : Type} (l : List α) (a : α) (k : Nat) :
    (l ++ [a])[k]? = if k = l.length then some a else l[k]? := by
  rw [List.getElem?_append]
  rcases Nat.lt_trichotomy k l.length with hlt | rfl | hgt
  · rw [if_pos hlt, if_neg hlt.ne]
  · simp
  · rw [if_neg hgt.asymm, if_neg hgt.ne', List.getElem?_eq_none hgt.le]
    exact List.getElem?_eq_none (Nat.sub_pos_of_lt hgt)

/-- After opening, the opened store is open under its identifier, and all others are as before. -/
theorem openAt_openStore (p : Process) (c : Configuration) :
    (p.openStore c).2.OpenAt k i ↔
      p.OpenAt k i ∨ k = (p.openStore c).1 ∧ c.identifier = i := by
  rcases p.openStore_cases c with ⟨o, ho, halive, hidentifier, hopen⟩ | ⟨-, hplace, hstores⟩
  · rw [hopen]
    generalize (p.openStore c).1 = place at ho
    unfold OpenAt
    rw [stores_updateStore]
    by_cases hk : k = place
    · subst hk
      simp [ho, halive, hidentifier]
    · simp [hk, Ne.symm hk]
  · rw [hplace]
    unfold OpenAt
    rw [hstores, getElem_concat]
    split
    · next hk => simp [hk]
    · next hk => simp [hk]

/-- After opening, the opened store is kept too, unless it was opened to be in memory only. -/
theorem keptAt_openStore (p : Process) (c : Configuration) :
    (p.openStore c).2.KeptAt k i ↔
      p.KeptAt k i ∨ k = (p.openStore c).1 ∧ c.identifier = i ∧ c.inMemory = false := by
  rcases p.openStore_cases c with ⟨o, ho, halive, hidentifier, hopen⟩ | ⟨-, hplace, hstores⟩
  · rw [hopen]
    generalize (p.openStore c).1 = place at ho
    unfold KeptAt
    rw [stores_updateStore]
    by_cases hk : k = place
    · subst hk
      cases hkept : o.isKept <;> simp +contextual [ho, halive, hidentifier, hkept, and_comm]
    · simp [hk, Ne.symm hk]
  · rw [hplace]
    unfold KeptAt
    rw [hstores, getElem_concat]
    split
    · next hk => simp [hk, and_comm]
    · next hk => simp [hk]

/-- A store that is open after another one was opened is as it was, or it is the one, and new. -/
theorem store_openStore (h : (p.openStore c).2.OpenAt k i) :
    p.OpenAt k i ∧ (p.openStore c).2.store? k = p.store? k ∨
      (∀ k', ¬p.OpenAt k' i) ∧ (p.openStore c).2.store? k = some { identifier := i } := by
  have hopen := (p.openAt_openStore c).mp h
  rcases p.openStore_cases c with ⟨o, ho, halive, hidentifier, hopened⟩ | ⟨hnone, hplace, hstores⟩
  · refine .inl ⟨?_, ?_⟩
    · rcases hopen with hopen | ⟨rfl, rfl⟩
      · exact hopen
      · exact ⟨o, ho, halive, hidentifier⟩
    · rw [hopened, store_updateStore]
      exact fun _ => rfl
  · rw [store?, store?, hstores, getElem_concat]
    by_cases hk : k = p.stores.length
    · obtain ⟨o, ho, -, rfl⟩ := h
      rw [hstores, getElem_concat, if_pos hk] at ho
      obtain rfl := Option.some.inj ho
      refine .inr ⟨fun k' hk' => ?_, by rw [if_pos hk]; rfl⟩
      have hsome := isSome_find_iff.mpr ⟨k', hk'⟩
      rw [hnone] at hsome
      cases hsome
    · rw [if_neg hk]
      exact .inl ⟨hopen.resolve_right fun h => hk (h.1.trans hplace), rfl⟩

/-- A process in which at most one store is open under an identifier, those that are kept are the
ones that are retained, and every actor that lives is on the store it was opened on. -/
structure Registered (retained : String → Prop) (p : Process) : Prop where
  apart : ∀ i k k', p.OpenAt k i → p.OpenAt k' i → k = k'
  kept : ∀ i, retained i ↔ ∃ k, p.KeptAt k i
  actors : ∀ (n : Nat) (a : Actor), p.actors[n]? = some a → a.isAlive = true →
    p.OpenAt a.store a.configuration.identifier

theorem Registered.find (hp : p.Registered retained) (h : p.OpenAt k i) : p.find? i = some k := by
  obtain ⟨k', hk'⟩ := Option.isSome_iff_exists.mp (isSome_find_iff.mpr ⟨k, h⟩)
  rw [hk', hp.apart i k' k (openAt_of_find hk') h]

theorem Registered.modifiesOnly (hp : p.Registered retained) (h : p.ModifiesOnly reach p') :
    p'.Registered retained := by
  refine ⟨fun i k k' hk hk' => ?_, fun i => ?_, fun n a' ha' halive => ?_⟩
  · exact hp.apart i k k' (h.openAt_iff.mp hk) (h.openAt_iff.mp hk')
  · simp only [hp.kept i, h.keptAt_iff]
  · obtain ⟨a, ha, hcard⟩ := h.actor ha'
    obtain ⟨hstore, hconfiguration, hsame⟩ : a'.store = a.store ∧
        a'.configuration = a.configuration ∧ a'.isAlive = a.isAlive := by
      simpa [Actor.card] using hcard
    rw [hstore, hconfiguration, h.openAt_iff]
    exact hp.actors n a ha (hsame ▸ halive)

theorem openAt_opened (p : Process) (c : Configuration) :
    (p.openStore c).2.OpenAt (p.openStore c).1 c.identifier :=
  (p.openAt_openStore c).mpr (.inr ⟨rfl, rfl⟩)

def Retaining (retained : String → Prop) (c : Configuration) (i : String) : Prop :=
  retained i ∨ c.identifier = i ∧ c.inMemory = false

/-- Opening keeps the registry, with the identifier retained where the configuration says so. -/
theorem Registered.openStore (hp : p.Registered retained) (c : Configuration) :
    (p.openStore c).2.Registered (Retaining retained c) := by
  have hsame {k : Nat} (hk : p.OpenAt k c.identifier) : k = (p.openStore c).1 := by
    unfold Process.openStore
    rw [hp.find hk]
  refine ⟨fun i k k' hk hk' => ?_, fun i => ?_, fun n a ha halive => ?_⟩
  · rw [openAt_openStore] at hk hk'
    rcases hk with hk | ⟨rfl, rfl⟩ <;> rcases hk' with hk' | ⟨rfl, hi⟩
    · exact hp.apart i k k' hk hk'
    · exact hsame (hi ▸ hk)
    · exact (hsame hk').symm
    · rfl
  · simp only [Retaining, hp.kept i, keptAt_openStore, exists_or, exists_eq_left]
  · rw [openAt_openStore]
    have ha : p.actors[n]? = some a := by
      unfold Process.openStore at ha
      split at ha <;> exact ha
    exact .inl (hp.actors n a ha halive)

theorem Registered.openActor (hp : p.Registered retained) (m : Model) (c : Configuration) :
    (p.openActor m c).2.Registered (Retaining retained c) := by
  have hopened := hp.openStore c
  refine ⟨hopened.apart, hopened.kept, fun n a ha halive => ?_⟩
  have ha : ((p.openStore c).2.actors ++ [{
      model := m, store := (p.openStore c).1, configuration := c }])[n]? = some a := ha
  rw [getElem_concat] at ha
  split at ha
  · obtain rfl := Option.some.inj ha
    exact p.openAt_opened c
  · exact hopened.actors n a ha halive

/-- What dropping leaves of a process: no store and no actor but those that lived, and they are on
what they were and hold what they did. -/
structure Trims (p p' : Process) : Prop where
  stores : ∀ (k : Nat) (o' : OpenStore), p'.stores[k]? = some o' → o'.isAlive = true →
    ∃ o, p.stores[k]? = some o ∧ o.isAlive = true ∧ o.isKept = o'.isKept ∧
      o.store.identifier = o'.store.identifier ∧ o.store.tables = o'.store.tables
  actors : ∀ (n : Nat) (a' : Actor), p'.actors[n]? = some a' → a'.isAlive = true →
    ∃ a, p.actors[n]? = some a ∧ a.isAlive = true ∧ a.store = a'.store ∧
      a.configuration = a'.configuration

theorem trims_refl (p : Process) : p.Trims p :=
  ⟨fun _ o ho halive => ⟨o, ho, halive, rfl, rfl, rfl⟩,
    fun _ a ha halive => ⟨a, ha, halive, rfl, rfl⟩⟩

theorem Trims.trans (h : p.Trims p') (h' : p'.Trims p'') : p.Trims p'' := by
  refine ⟨fun k o'' ho'' halive'' => ?_, fun n a'' ha'' halive'' => ?_⟩
  · obtain ⟨o', ho', halive', hkept', hidentifier', htables'⟩ := h'.stores k o'' ho'' halive''
    obtain ⟨o, ho, halive, hkept, hidentifier, htables⟩ := h.stores k o' ho' halive'
    exact ⟨o, ho, halive, hkept.trans hkept', hidentifier.trans hidentifier',
      htables.trans htables'⟩
  · obtain ⟨a', ha', halive', hstore', hconfiguration'⟩ := h'.actors n a'' ha'' halive''
    obtain ⟨a, ha, halive, hstore, hconfiguration⟩ := h.actors n a' ha' halive'
    exact ⟨a, ha, halive, hstore.trans hstore', hconfiguration.trans hconfiguration'⟩

theorem trims_of_modifiesOnly (h : p.ModifiesOnly (fun _ => False) p') : p.Trims p' := by
  refine ⟨fun k o' ho' halive => ?_, fun n a' ha' halive => ?_⟩
  · have hcards : (p'.stores.map OpenStore.card)[k]? = (p.stores.map OpenStore.card)[k]? := by
      rw [h.stores]
    have htables := h.tables k not_false
    rw [List.getElem?_map, List.getElem?_map, ho', Option.map_some] at hcards
    obtain ⟨o, ho, hcard⟩ := Option.map_eq_some_iff.mp hcards.symm
    simp only [tables?, store?, ho, ho', Option.map_some, Option.some.injEq] at htables
    simp only [OpenStore.card, Prod.mk.injEq] at hcard
    exact ⟨o, ho, hcard.2.2.trans halive, hcard.2.1, hcard.1, htables.symm⟩
  · obtain ⟨a, ha, hcard⟩ := h.actor ha'
    simp only [Actor.card, Prod.mk.injEq] at hcard
    exact ⟨a, ha, hcard.2.2.symm.trans halive, hcard.1.symm, hcard.2.1.symm⟩

/-- Dropping an actor opens nothing and writes nothing. -/
theorem trims_dropActor (p : Process) (n : Nat) : p.Trims (p.dropActor n) := by
  unfold dropActor
  split
  · exact p.trims_refl
  · split
    · refine Trims.trans ?_ (trims_of_modifiesOnly (modifiesOnly_invalidateAll _ _ _))
      refine ⟨p.trims_refl.stores, fun k a' ha' halive => ?_⟩
      obtain ⟨a, ha, rfl⟩ := actors_updateActor ha'
      split at halive
      · cases halive
      · next hk =>
        rw [if_neg hk]
        exact ⟨a, ha, halive, rfl, rfl⟩
    · exact p.trims_refl

theorem trims_dropStore (p : Process) (place : Nat) : p.Trims (p.dropStore place) := by
  refine ⟨fun k o' ho' halive => ?_, p.trims_refl.actors⟩
  rw [dropStore, stores_updateStore] at ho'
  obtain ⟨o, ho, rfl⟩ := Option.map_eq_some_iff.mp ho'
  split at halive
  · cases halive
  · next hk =>
    rw [if_neg hk]
    exact ⟨o, ho, halive, rfl, rfl, rfl⟩

theorem trims_dropActors (p : Process) (roots : List Root) : p.Trims (p.dropActors roots) := by
  refine foldl_keeps (P := p.Trims) (fun q k hq => ?_) _ p.trims_refl
  split
  · exact hq
  · exact hq.trans (q.trims_dropActor k)

theorem trims_collect (p : Process) (roots : List Root) : p.Trims (p.collect roots) := by
  rw [collect_eq]
  refine foldl_keeps (P := p.Trims) (fun q k hq => ?_) _ (p.trims_dropActors roots)
  rcases dropUnreferred_cases roots q k with ⟨h, -⟩ | ⟨h, -⟩ <;> rw [h]
  · exact hq
  · exact hq.trans (q.trims_dropStore k)

theorem Trims.openAt (h : p.Trims p') (hopen : p'.OpenAt k i) :
    p.OpenAt k i ∧ p'.tables? k = p.tables? k := by
  obtain ⟨o', ho', halive', rfl⟩ := hopen
  obtain ⟨o, ho, halive, -, hidentifier, htables⟩ := h.stores k o' ho' halive'
  refine ⟨⟨o, ho, halive, hidentifier⟩, ?_⟩
  simp only [tables?, store?, ho, ho', Option.map_some, htables]

theorem Trims.keptAt (h : p.Trims p') (hkept : p'.KeptAt k i) : p.KeptAt k i := by
  obtain ⟨o', ho', halive', hkept', rfl⟩ := hkept
  obtain ⟨o, ho, halive, hkept, hidentifier, -⟩ := h.stores k o' ho' halive'
  exact ⟨o, ho, halive, hkept.trans hkept', hidentifier⟩

def IsRooted (p : Process) (roots : List Root) (place : Nat) : Prop :=
  Root.store place ∈ roots ∨ ∃ (n : Nat) (a : Actor), Root.actor n ∈ roots ∧
    p.actors[n]? = some a ∧ a.isAlive = true ∧ a.store = place

theorem actors_dropActor_ne (p : Process) (hne : n ≠ k) :
    (p.dropActor n).actors[k]? = p.actors[k]? := by
  unfold dropActor
  split
  · rfl
  · split
    · rw [actors_invalidateAll, updateActor, List.getElem?_modify_ne _ _ hne]
    · rfl

/-- Actors that a root keeps are not dropped. -/
theorem actors_dropActors (p : Process) (hn : Root.actor n ∈ roots) :
    (p.dropActors roots).actors[n]? = p.actors[n]? := by
  refine foldl_keeps (P := fun q => q.actors[n]? = p.actors[n]?) (fun q k hq => ?_) _ rfl
  split
  · exact hq
  · next hk =>
    have hne : k ≠ n := by
      rintro rfl
      exact hk (List.contains_iff_mem.mpr hn)
    exact (q.actors_dropActor_ne hne).trans hq

theorem cards_invalidateAll (p : Process) (place : Nat) (ids : List Nat) :
    (p.invalidateAll place ids).stores.map OpenStore.card = p.stores.map OpenStore.card := by
  have hmodifies : p.ModifiesOnly (fun _ => False) _ := p.modifiesOnly_invalidateAll place ids
  exact hmodifies.stores

theorem cards_dropActors (p : Process) (roots : List Root) :
    (p.dropActors roots).stores.map OpenStore.card = p.stores.map OpenStore.card := by
  refine foldl_keeps (P := fun q => q.stores.map OpenStore.card = p.stores.map OpenStore.card)
    (fun q k hq => ?_) _ rfl
  split
  · exact hq
  · unfold dropActor
    split
    · exact hq
    · split
      · exact (cards_invalidateAll _ _ _).trans hq
      · exact hq

/-- A store that is kept or that something among the roots keeps stays open. -/
theorem openAt_collect (hopen : p.OpenAt k i) (hheld : p.KeptAt k i ∨ p.IsRooted roots k) :
    (p.collect roots).OpenAt k i := by
  have hfirst : (p.dropActors roots).OpenAt k i ∧
      ((p.dropActors roots).KeptAt k i ∨ (p.dropActors roots).isStoreReferred roots k = true) := by
    rw [openAt_iff_card, keptAt_iff_card, cards_dropActors, ← openAt_iff_card, ← keptAt_iff_card]
    refine ⟨hopen, hheld.imp_right ?_⟩
    rintro (hroot | ⟨n, a, hn, ha, halive, hplace⟩)
    · simp [isStoreReferred, hroot]
    · have hmem := List.mem_of_getElem? ((p.actors_dropActors hn).trans ha)
      have hany : (p.dropActors roots).actors.any (fun a => a.isAlive && a.store == k) = true :=
        List.any_eq_true.mpr ⟨a, hmem, by simp [halive, hplace]⟩
      rw [isStoreReferred, hany, Bool.or_true]
  rw [collect_eq]
  refine (foldl_keeps (P := fun q => q.OpenAt k i ∧
    (q.KeptAt k i ∨ q.isStoreReferred roots k = true)) (fun q k' hq => ?_) _ hfirst).1
  by_cases hk : k' = k
  · subst hk
    rw [dropUnreferred_of_isReferred fun o ho => ?_]
    · exact hq
    · rcases hq.2 with ⟨o', ho', -, hkept, -⟩ | hreferred
      · obtain rfl := Option.some.inj (ho.symm.trans ho')
        simp [hkept]
      · simp [hreferred]
  · rcases dropUnreferred_cases roots q k' with ⟨h, -⟩ | ⟨h, -⟩ <;> rw [h]
    · exact hq
    · have hsame : (q.dropStore k').stores[k]? = q.stores[k]? := by
        rw [dropStore, stores_updateStore]
        simp [hk]
      unfold OpenAt KeptAt
      rw [hsame]
      exact hq

/-- A store that is still open is kept, or something among the roots keeps it. -/
theorem held_of_openAt_collect (hopen : (p.collect roots).OpenAt k i) :
    (p.collect roots).KeptAt k i ∨ (p.collect roots).IsRooted roots k := by
  obtain ⟨o, ho, halive, rfl⟩ := hopen
  have hlt : k < (p.collect roots).stores.length := (List.getElem?_eq_some_iff.mp ho).1
  rw [length_collect] at hlt
  have hreferred := isReferred_collect p hlt o ho
  cases hkept : o.isKept with
  | true => exact .inl ⟨o, ho, halive, hkept, rfl⟩
  | false =>
    refine .inr ?_
    simp only [halive, hkept, Bool.not_false, Bool.and_self, Bool.true_and, Bool.not_eq_false',
      isStoreReferred, Bool.or_eq_true, List.contains_iff_mem, List.any_eq_true,
      Bool.and_eq_true, beq_iff_eq] at hreferred
    rcases hreferred with hroot | ⟨a, ha, halive', hplace⟩
    · exact .inl hroot
    · obtain ⟨n, hn⟩ := List.getElem?_of_mem ha
      refine .inr ⟨n, a, ?_, hn, halive', hplace⟩
      by_contra hroot
      rw [actors_collect] at hn
      have hdead := isDead_dropActors p hroot a hn
      exact absurd (hdead.symm.trans halive') Bool.false_ne_true

end Process

namespace Session

variable {retained : String → Prop} {reach : Nat → Prop} {sess sess' : Session} {k n place : Nat}
  {i name : String} {c : Configuration} {h : Handle}

/-- A session with a process in order in which every handle on a store is on the one that is open
under its identifier. -/
structure Registered (retained : String → Prop) (sess : Session) : Prop where
  process : sess.process.Registered retained
  stores : ∀ name place c, (name, Handle.store place c) ∈ sess.handles →
    sess.process.OpenAt place c.identifier
  names : (sess.handles.map Prod.fst).Nodup

theorem Registered.modifiesOnly (hsess : sess.Registered retained)
    (h : sess.ModifiesOnly reach sess') : sess'.Registered retained := by
  refine ⟨hsess.process.modifiesOnly h.process, fun name place c hentry => ?_, h.names hsess.names⟩
  obtain ⟨old, hold⟩ := h.openers _ hentry rfl
  exact h.process.openAt_iff.mpr (hsess.stores old place c hold)

/-- Naming a handle on a store that is open under its identifier. -/
theorem Registered.bound (hsess : sess.Registered retained) (name : String)
    (hh : ∀ place c, h = .store place c → sess.process.OpenAt place c.identifier) :
    (sess.bound name h).Registered retained := by
  have hreleased : sess.process.ModifiesOnly (fun _ => False) (sess.released name) :=
    sess.modifiesOnly_released name
  refine ⟨hsess.process.modifiesOnly hreleased, fun old place c hentry => ?_,
    nodup_bound hsess.names name h⟩
  refine hreleased.openAt_iff.mpr ?_
  rcases List.mem_append.mp hentry with hentry | hentry
  · exact hsess.stores old place c (List.mem_filter.mp hentry).1
  · exact hh place c (Prod.mk.inj (List.mem_singleton.mp hentry)).2.symm

/-- Opening leaves the handles on stores where they are. -/
theorem Registered.opened {p : Process} (hsess : sess.Registered retained)
    (hp : p.Registered (Process.Retaining retained c))
    (hstores : p.stores = (sess.process.openStore c).2.stores) :
    Registered (Process.Retaining retained c) { sess with process := p } := by
  refine ⟨hp, fun name place c' hentry => ?_, hsess.names⟩
  show p.OpenAt place c'.identifier
  unfold Process.OpenAt
  rw [hstores]
  exact (sess.process.openAt_openStore c).mpr (.inl (hsess.stores name place c' hentry))

/-- Dropping what nothing refers to. -/
theorem Registered.settle (hsess : sess.Registered retained) : sess.settle.Registered retained := by
  have htrims : sess.process.Trims sess.settle.process := sess.process.trims_collect sess.roots
  refine ⟨⟨fun i k k' hk hk' => ?_, fun i => ?_, fun n a' ha' halive => ?_⟩,
    fun name place c hentry => ?_, hsess.names⟩
  · exact hsess.process.apart i k k' (htrims.openAt hk).1 (htrims.openAt hk').1
  · rw [hsess.process.kept i]
    refine ⟨fun ⟨k, hk⟩ => ⟨k, ?_⟩, fun ⟨k, hk⟩ => ⟨k, htrims.keptAt hk⟩⟩
    obtain ⟨o', ho', halive', hidentifier⟩ := Process.openAt_collect hk.openAt (.inl hk)
    obtain ⟨o, ho, -, hsame, -⟩ := htrims.stores k o' ho' halive'
    obtain ⟨o₁, ho₁, -, hkept, -⟩ := hk
    obtain rfl := Option.some.inj (ho.symm.trans ho₁)
    exact ⟨o', ho', halive', hsame.symm.trans hkept, hidentifier⟩
  · obtain ⟨a, ha, halive₁, hstore, hconfiguration⟩ := htrims.actors n a' ha' halive
    have hroot : Root.actor n ∈ sess.roots := by
      by_contra hroot
      have ha' : (sess.process.collect sess.roots).actors[n]? = some a' := ha'
      rw [Process.actors_collect] at ha'
      have hdead := Process.isDead_dropActors sess.process hroot a' ha'
      exact absurd (hdead.symm.trans halive) Bool.false_ne_true
    rw [← hstore, ← hconfiguration]
    exact Process.openAt_collect (hsess.process.actors n a ha halive₁)
      (.inr (.inr ⟨n, a, hroot, ha, halive₁, rfl⟩))
  · exact Process.openAt_collect (hsess.stores name place c hentry)
      (.inr (.inl (mem_roots hentry List.mem_cons_self)))

theorem handle_of_mem (hnames : (sess.handles.map Prod.fst).Nodup)
    (hentry : (name, h) ∈ sess.handles) : sess.handle? name = some h :=
  lookup_of_mem hnames hentry

/-- A handle that keeps a store open is on it, or keeps an actor that is. -/
theorem Keeps.cases (hkeeps : sess.Keeps name place c) (hsess : sess.Orderly) :
    (name, Handle.store place c) ∈ sess.handles ∨ ∃ (n : Nat) (a : Actor),
      Root.actor n ∈ sess.roots ∧ sess.process.actors[n]? = some a ∧ a.isAlive = true ∧
        a.store = place ∧ a.configuration = c := by
  obtain ⟨h, hh, hkeeps⟩ := hkeeps
  have hproper := hsess.isProper hh
  have hactor {n : Nat} (hn : Root.actor n ∈ h.roots) (halive : sess.process.IsAlive n)
      (hkeeps : (sess.process.actors[n]?).map (fun a => (a.store, a.configuration)) =
        some (place, c)) : ∃ (n : Nat) (a : Actor), Root.actor n ∈ sess.roots ∧
          sess.process.actors[n]? = some a ∧ a.isAlive = true ∧ a.store = place ∧
            a.configuration = c := by
    obtain ⟨a, ha, halive⟩ := halive
    rw [ha, Option.map_some] at hkeeps
    cases hkeeps
    exact ⟨n, a, mem_roots (mem_of_handle hh) hn, ha, halive, rfl, rfl⟩
  cases h with
  | store place' c' =>
    cases hkeeps
    exact .inl (mem_of_handle hh)
  | actor n isGenerated => exact .inr (hactor List.mem_cons_self hproper hkeeps)
  | observation place' id owner =>
    cases owner with
    | none => cases hkeeps
    | some n => exact .inr (hactor List.mem_cons_self (hproper.2 n rfl).1 hkeeps)
  | _ => cases hkeeps

/-- The store is the one that is open under its identifier. -/
theorem Keeps.openAt (hkeeps : sess.Keeps name place c) (hsess : sess.Orderly)
    (hregistered : sess.Registered retained) : sess.process.OpenAt place c.identifier := by
  rcases hkeeps.cases hsess with hentry | ⟨n, a, -, ha, halive, rfl, rfl⟩
  · exact hregistered.stores name place c hentry
  · exact hregistered.process.actors n a ha halive

theorem Keeps.isRooted (hkeeps : sess.Keeps name place c) (hsess : sess.Orderly) :
    sess.process.IsRooted sess.roots place := by
  rcases hkeeps.cases hsess with hentry | ⟨n, a, hn, ha, halive, rfl, rfl⟩
  · exact .inl (mem_roots hentry List.mem_cons_self)
  · exact .inr ⟨n, a, hn, ha, halive, rfl⟩

/-- A root is a handle that keeps it. -/
theorem keeps_of_isRooted (hsess : sess.Orderly) (hregistered : sess.Registered retained)
    (hrooted : sess.process.IsRooted sess.roots place) : ∃ name c, sess.Keeps name place c := by
  have hhandle {root : Root} (hroot : root ∈ sess.roots) :
      ∃ name h, sess.handle? name = some h ∧ root ∈ h.roots := by
    rw [roots, hsess.running, List.nil_append] at hroot
    obtain ⟨roots, hroots, hroot⟩ := List.mem_flatten.mp hroot
    obtain ⟨entry, hentry, rfl⟩ := List.mem_map.mp hroots
    exact ⟨entry.1, entry.2, handle_of_mem hregistered.names hentry, hroot⟩
  rcases hrooted with hroot | ⟨n, a, hroot, ha, -, rfl⟩
  · obtain ⟨name, h, hh, hroot⟩ := hhandle hroot
    have hproper := hsess.isProper hh
    cases h with
    | store place' c =>
      obtain rfl : place = place' := by simpa [Handle.roots] using hroot
      exact ⟨name, c, _, hh, rfl⟩
    | actor n isGenerated => simp [Handle.roots] at hroot
    | observation place' id owner => cases owner <;> simp [Handle.roots] at hroot
    | operation | spent => exact hproper.elim
    | token | results => cases hroot
  · obtain ⟨name, h, hh, hroot⟩ := hhandle hroot
    have hproper := hsess.isProper hh
    have hkeeps : (sess.process.actors[n]?).map (fun a => (a.store, a.configuration)) =
        some (a.store, a.configuration) := by
      rw [ha]
      rfl
    refine ⟨name, a.configuration, h, hh, ?_⟩
    cases h with
    | store place' c => simp [Handle.roots] at hroot
    | actor n' isGenerated =>
      obtain rfl : n = n' := by simpa [Handle.roots] using hroot
      exact hkeeps
    | observation place' id owner =>
      cases owner with
      | none => cases hroot
      | some n' =>
        obtain rfl : n = n' := by simpa [Handle.roots] using hroot
        exact hkeeps
    | operation | spent => exact hproper.elim
    | token | results => cases hroot

/-- Where nothing is left to drop, a store is open if it is retained or a handle keeps it. -/
theorem isSome_find_iff_keeps (hsess : sess.Orderly) (hsettled : sess.IsSettled)
    (hregistered : sess.Registered retained) : (sess.process.find? i).isSome ↔
      retained i ∨ ∃ name place c, sess.Keeps name place c ∧ c.identifier = i := by
  rw [Process.isSome_find_iff, hregistered.process.kept i]
  constructor
  · rintro ⟨k, hk⟩
    have hprocess : sess.process.collect sess.roots = sess.process :=
      congrArg Session.process hsettled
    have hheld := Process.held_of_openAt_collect (hprocess.symm ▸ hk)
    rw [hprocess] at hheld
    rcases hheld with hkept | hrooted
    · exact .inl ⟨k, hkept⟩
    · obtain ⟨name, c, hkeeps⟩ := keeps_of_isRooted hsess hregistered hrooted
      exact .inr ⟨name, k, c, hkeeps, (hkeeps.openAt hsess hregistered).unique hk⟩
  · rintro (⟨k, hk⟩ | ⟨name, place, c, hkeeps, rfl⟩)
    · exact ⟨k, hk.openAt⟩
    · exact ⟨place, hkeeps.openAt hsess hregistered⟩

end Session

end RecordStore
