import RecordStore.Proofs.Store.History

/-!
The subscriptions of a store. They are numbered from one in the order in which they were started,
no event loses one, and what an event makes of an observer depends on that observer only.
-/
namespace RecordStore

namespace Observer

theorem subscription_invalidate (o : Observer) : o.invalidate.subscription = o.subscription := by
  unfold invalidate
  split <;> rfl

theorem invalidate_invalidate (o : Observer) : o.invalidate.invalidate = o.invalidate := by
  cases h : o.isInvalidated <;> simp [invalidate, h]

theorem subscription_cancel (o : Observer) : o.cancel.subscription = o.subscription :=
  o.subscription_invalidate

theorem subscription_receive (o : Observer) : o.receive.2.subscription = o.subscription := by
  unfold receive
  split
  · rfl
  · split
    · split
      · rfl
      · exact subscription_invalidate _
    · split
      · rfl
      · exact subscription_invalidate _

end Observer

namespace Store

def Event.onObserver (s : Store) (e : Event) (o : Observer) : Observer :=
  match e with
  | .write .. => o.told (s.tables.table o.model.typeName) ((s.step e).tables.table o.model.typeName)
  | .observe .. => o
  | .receive j => if o.subscription = j then o.receive.2 else o
  | .invalidate j => if o.subscription = j then o.invalidate else o
  | .close ids => if o.subscription ∈ ids then o.invalidate else o
  | .cancel j => if o.subscription = j then o.cancel else o
  | .discard => { o with isSubscribed := false }

variable {models : Model → Prop} {m : Model} {s : Store} {id : Nat} {o : Observer}

theorem subscription_of_observer (h : s.observer? id = some o) : o.subscription = id := by
  simpa using List.find?_some h

theorem observer_of_map {s' : Store} {f : Observer → Observer}
    (hs' : s'.observers = s.observers.map f) (hf : ∀ o, (f o).subscription = o.subscription)
    (h : s.observer? id = some o) : s'.observer? id = some (f o) := by
  have hsame : ((fun o : Observer => o.subscription == id) ∘ f) =
      fun o => o.subscription == id := by
    funext o
    simp [hf]
  unfold observer? at h ⊢
  rw [hs', List.find?_map, hsame, h]
  rfl

theorem observer_updateObserver {j : Nat} {f : Observer → Observer}
    (hf : ∀ o, o.subscription = j → (f o).subscription = j) (h : s.observer? id = some o) :
    (s.updateObserver j f).observer? id = some (if o.subscription = j then f o else o) := by
  refine observer_of_map (f := fun o => if o.subscription = j then f o else o) rfl (fun o => ?_) h
  split
  · next hj => rw [hf o hj, hj]
  · rfl

theorem observer_invalidate {j : Nat} (h : s.observer? id = some o) :
    (s.invalidate j).2.observer? id = some (if o.subscription = j then o.invalidate else o) := by
  unfold invalidate
  split
  · next hnone =>
    have hne : o.subscription ≠ j := by
      rintro rfl
      rw [subscription_of_observer h, h] at hnone
      cases hnone
    rw [if_neg hne]
    exact h
  · exact observer_updateObserver (fun o ho => o.subscription_invalidate.trans ho) h

theorem observer_invalidateAll {ids : List Nat} (h : s.observer? id = some o) :
    (s.invalidateAll ids).observer? id =
      some (if o.subscription ∈ ids then o.invalidate else o) := by
  induction ids generalizing s o with
  | nil => simpa [invalidateAll] using h
  | cons j rest ih =>
    have hfirst := ih (observer_invalidate (j := j) h)
    rw [invalidateAll, List.foldl_cons]
    refine hfirst.trans (congrArg some ?_)
    by_cases hj : o.subscription = j
    · simp [hj, Observer.subscription_invalidate, Observer.invalidate_invalidate]
    · simp [hj]

theorem receive_eq (h : s.observer? id = some o) : (s.receive id).1 = o.receive.1 := by
  simp [receive, h]

/-- Receiving for one subscription leaves the other observers as they were. -/
theorem observer_receive {j : Nat} (h : s.observer? id = some o) :
    (s.receive j).2.observer? id = some (if o.subscription = j then o.receive.2 else o) := by
  unfold receive
  split
  · next hnone =>
    have hne : o.subscription ≠ j := by
      rintro rfl
      rw [subscription_of_observer h, h] at hnone
      cases hnone
    rw [if_neg hne]
    exact h
  · next o' ho' =>
    have hj := subscription_of_observer ho'
    rw [observer_updateObserver (fun _ _ => o'.subscription_receive.trans hj) h]
    by_cases hid : o.subscription = j
    · have hsame : o = o' := by
        rw [← hid, subscription_of_observer h, h] at ho'
        exact Option.some.inj ho'
      rw [if_pos hid, if_pos hid, hsame]
    · rw [if_neg hid, if_neg hid]

theorem observer_observe {isReachable : Bool} (m : Model) (ho : s.observer? id = some o) :
    (s.observe m isReachable).2.observer? id = some o := by
  unfold observe
  split
  · exact ho
  · unfold observer? at ho ⊢
    rw [List.find?_append, ho]
    rfl

/-- An event changes an observer as it changes all with its subscription, and loses none. -/
theorem observer_step (hmodels : ∀ m, models m → m.Sound)
    (hs : View.Sound models s.tables.table) {e : Event} (he : e.Typed models)
    (h : s.observer? id = some o) : (s.step e).observer? id = some (e.onObserver s o) := by
  cases e with
  | write c body =>
    have hw := written hmodels hs c body
    show (s.write c body.run).2.observer? id = some (o.told (s.tables.table o.model.typeName)
      ((s.write c body.run).2.tables.table o.model.typeName))
    generalize s.write c body.run = result at hw ⊢
    cases hw with
    | @committed a v s' hc hbody hs' =>
      rw [hs'.tables]
      exact observer_of_map
        (f := fun o => o.told (s.tables.table o.model.typeName) (v o.model.typeName))
        hs'.observers (fun o => o.subscription_told _ _) h
    | failed => rw [o.told_self hmodels (hs o.model.typeName), h]
    | refused => rw [o.told_self hmodels (hs o.model.typeName), h]
  | observe m isReachable => exact observer_observe m h
  | receive j => exact observer_receive h
  | invalidate j => exact observer_invalidate h
  | close ids => exact observer_invalidateAll h
  | cancel j => exact observer_updateObserver (fun o ho => o.subscription_cancel.trans ho) h
  | discard => exact observer_of_map rfl (fun _ => rfl) h

def Numbered (s : Store) : Prop :=
  s.observers.map Observer.subscription = List.range' 1 s.observers.length

theorem numbered_of_map {s' : Store} {f : Observer → Observer}
    (hs' : s'.observers = s.observers.map f) (hf : ∀ o, (f o).subscription = o.subscription)
    (h : s.Numbered) : s'.Numbered := by
  have hsame : Observer.subscription ∘ f = Observer.subscription := funext hf
  unfold Numbered
  rw [hs', List.map_map, hsame, List.length_map]
  exact h

theorem numbered_updateObserver {j : Nat} {f : Observer → Observer}
    (hf : ∀ o, o.subscription = j → (f o).subscription = j) (h : s.Numbered) :
    (s.updateObserver j f).Numbered := by
  refine numbered_of_map (f := fun o => if o.subscription = j then f o else o) rfl (fun o => ?_) h
  split
  · next hj => rw [hf o hj, hj]
  · rfl

theorem numbered_invalidate {j : Nat} (h : s.Numbered) : (s.invalidate j).2.Numbered := by
  unfold invalidate
  split
  · exact h
  · exact numbered_updateObserver (fun o ho => o.subscription_invalidate.trans ho) h

theorem numbered_invalidateAll {ids : List Nat} (h : s.Numbered) :
    (s.invalidateAll ids).Numbered := by
  induction ids generalizing s with
  | nil => exact h
  | cons j rest ih => exact ih (numbered_invalidate h)

theorem numbered_receive {j : Nat} (h : s.Numbered) : (s.receive j).2.Numbered := by
  unfold receive
  split
  · exact h
  · next o ho =>
    have hj := subscription_of_observer ho
    exact numbered_updateObserver (fun _ _ => o.subscription_receive.trans hj) h

theorem numbered_observe {isReachable : Bool} (h : s.Numbered) :
    (s.observe m isReachable).2.Numbered := by
  unfold observe
  split
  · exact h
  · next records hrecords =>
    unfold Numbered at h ⊢
    simp only [List.map_append, List.length_append, List.map_cons, List.map_nil, h,
      List.length_cons, List.length_nil, List.range'_concat, nextSubscription, Observer.start]
    simp [Nat.add_comm]

/-- No event gives out a number that an observer has. -/
theorem numbered_step (hmodels : ∀ m, models m → m.Sound) (hs : View.Sound models s.tables.table)
    {e : Event} (he : e.Typed models) (h : s.Numbered) : (s.step e).Numbered := by
  cases e with
  | write c body =>
    have hw := written hmodels hs c body
    show (s.write c body.run).2.Numbered
    generalize s.write c body.run = result at hw ⊢
    cases hw with
    | committed hc hbody hs' =>
      exact numbered_of_map hs'.observers (fun o => o.subscription_told _ _) h
    | failed => exact h
    | refused => exact h
  | observe m isReachable => exact numbered_observe h
  | receive j => exact numbered_receive h
  | invalidate j => exact numbered_invalidate h
  | close ids => exact numbered_invalidateAll h
  | cancel j => exact numbered_updateObserver (fun o ho => o.subscription_cancel.trans ho) h
  | discard => exact numbered_of_map rfl (fun _ => rfl) h

/-- Numbers of observers differ in every state. -/
theorem numbered_after (hmodels : ∀ m, models m → m.Sound) :
    ∀ (events : List Event) (s : Store), (∀ e ∈ events, e.Typed models) →
      View.Sound models s.tables.table → s.Numbered → (s.after events).Numbered
  | [], _, _, _, h => h
  | e :: rest, s, hevents, hs, h => by
    have he := hevents e (List.mem_cons_self ..)
    have hs' := step_sound hmodels hs he
    exact numbered_after hmodels rest (s.step e)
      (fun e he => hevents e (List.mem_cons_of_mem _ he)) hs' (numbered_step hmodels hs he h)

theorem observer_eq_none_iff (h : s.Numbered) :
    s.observer? id = none ↔ id = 0 ∨ s.nextSubscription ≤ id := by
  have hmem : id ∈ s.observers.map Observer.subscription ↔ 1 ≤ id ∧ id < s.nextSubscription := by
    rw [h, List.mem_range'_1, nextSubscription, Nat.add_comm]
  have hnone : s.observer? id = none ↔ id ∉ s.observers.map Observer.subscription := by
    simp [observer?]
  rw [hnone, hmem]
  omega

/-- The number of the next subscription is not that of an observer. -/
theorem observer_append (h : s.Numbered) (o : Observer) (ho : o.subscription = s.nextSubscription) :
    (s.observers ++ [o]).find? (·.subscription == s.nextSubscription) = some o := by
  have hnone : s.observers.find? (·.subscription == s.nextSubscription) = none :=
    (observer_eq_none_iff h).mpr (.inr (Nat.le_refl _))
  rw [List.find?_append, hnone]
  simp [ho]

/-- The subscriptions of a store are those of the observers that are subscribed. -/
theorem mem_subscriptions_iff (h : s.Numbered) (ho : s.observer? id = some o) :
    id ∈ s.subscriptions ↔ o.isSubscribed = true := by
  have hid := subscription_of_observer ho
  have hnodup : (s.observers.map Observer.subscription).Nodup := h ▸ List.nodup_range'
  simp only [subscriptions, List.mem_map, List.mem_filter]
  constructor
  · rintro ⟨o', ⟨ho', hsubscribed⟩, hid'⟩
    have hsame := List.inj_on_of_nodup_map hnodup ho' (List.mem_of_find?_eq_some ho)
      (hid'.trans hid.symm)
    exact hsame ▸ hsubscribed
  · exact fun hsubscribed => ⟨o, ⟨List.mem_of_find?_eq_some ho, hsubscribed⟩, hid⟩

end Store

end RecordStore
