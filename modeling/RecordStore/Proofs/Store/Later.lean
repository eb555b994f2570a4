import RecordStore.Proofs.Store.Subscription

/-!
What can become of an observer. Its token stays ended once it was, and so does it itself; and once
it is sent nothing more, all that is left for it is what it had not taken by then, in order.
-/
namespace RecordStore

namespace Observer

/-- Nothing is sent to an observer whose token was ended. -/
def Regular (o : Observer) : Prop := o.isInvalidated = true → o.isSubscribed = false

/-- What an observer can become. -/
structure Later (o o' : Observer) : Prop where
  subscription : o'.subscription = o.subscription
  model : o'.model = o.model
  invalidated : o.isInvalidated = true → o'.isInvalidated = true
  finished : o.isFinished = true → o'.isFinished = true
  unsubscribed : o.isSubscribed = false → o'.isSubscribed = false
  queue : o.isSubscribed = false → o'.queue <:+ o.queue
  regular : o.Regular → o'.Regular

variable {o o' o'' : Observer}

theorem later_refl (o : Observer) : o.Later o :=
  ⟨rfl, rfl, id, id, id, fun _ => List.suffix_rfl, id⟩

theorem Later.trans (h : o.Later o') (h' : o'.Later o'') : o.Later o'' where
  subscription := h'.subscription.trans h.subscription
  model := h'.model.trans h.model
  invalidated := h'.invalidated ∘ h.invalidated
  finished := h'.finished ∘ h.finished
  unsubscribed := h'.unsubscribed ∘ h.unsubscribed
  queue := fun ho => (h'.queue (h.unsubscribed ho)).trans (h.queue ho)
  regular := h'.regular ∘ h.regular

theorem isInvalidated_invalidate (o : Observer) : o.invalidate.isInvalidated = true := by
  unfold invalidate
  split
  · assumption
  · rfl

theorem queue_invalidate (o : Observer) : o.invalidate.queue = o.queue := by
  unfold invalidate
  split <;> rfl

theorem later_invalidate (o : Observer) : o.Later o.invalidate := by
  unfold invalidate
  split
  · exact later_refl o
  · exact ⟨rfl, rfl, fun _ => rfl, id, fun _ => rfl, fun _ => List.suffix_rfl, fun _ _ => rfl⟩

theorem later_finish (o : Observer) : o.Later o.finish :=
  have h := o.later_invalidate
  ⟨h.subscription, h.model, h.invalidated, fun _ => rfl, h.unsubscribed, h.queue, h.regular⟩

theorem later_cancel (o : Observer) : o.Later o.cancel :=
  have h := o.later_finish
  ⟨h.subscription, h.model, h.invalidated, h.finished, h.unsubscribed,
    fun _ => List.nil_suffix, h.regular⟩

theorem later_receive (o : Observer) : o.Later o.receive.2 := by
  unfold receive
  split
  · exact later_refl o
  · split
    · next c rest hqueue =>
      have hrest : o.Later { o with queue := rest } :=
        ⟨rfl, rfl, id, id, id, fun _ => hqueue ▸ List.suffix_cons c rest, id⟩
      cases hc : c.records?.isSome with
      | true => simpa [hc] using hrest
      | false => simpa [hc] using hrest.trans (later_finish _)
    · split
      · exact later_refl o
      · exact o.later_finish

theorem later_unsubscribe (o : Observer) : o.Later { o with isSubscribed := false } :=
  ⟨rfl, rfl, id, id, fun _ => rfl, fun _ => List.suffix_rfl, fun _ _ => rfl⟩

/-- An observer that is sent nothing is told nothing. -/
theorem told_eq_self (h : o.isSubscribed = false) (old t : Table) : o.told old t = o := by
  unfold told
  split
  · rfl
  · simp [notify, h]

theorem isInvalidated_told (o : Observer) (old t : Table) :
    (o.told old t).isInvalidated = o.isInvalidated := by
  unfold told notify
  split
  · rfl
  · split <;> rfl

/-- Telling an observer of a new table makes of it a later state of the same observer. -/
theorem later_told (o : Observer) (old t : Table) : o.Later (o.told old t) := by
  have hfinished : (o.told old t).isFinished = o.isFinished := by
    unfold told notify
    split
    · rfl
    · split <;> rfl
  refine ⟨o.subscription_told old t, o.model_told old t, ?_, ?_, fun h => ?_, fun h => ?_,
    fun h hi => ?_⟩
  · exact fun h => (o.isInvalidated_told old t).trans h
  · exact fun h => hfinished.trans h
  · rw [told_eq_self h, h]
  · exact (told_eq_self h old t).symm ▸ List.suffix_rfl
  · have hsubscribed := h ((o.isInvalidated_told old t).symm.trans hi)
    rw [told_eq_self hsubscribed, hsubscribed]

/-- An observer that is sent nothing more receives what is left, and then the end. -/
theorem receive_of_unsubscribed (h : o.isSubscribed = false) :
    o.receive.1 = .ended ∨ ∃ c ∈ o.queue, o.receive.1 = .change c := by
  unfold receive
  split
  · exact .inl rfl
  · split
    · next c rest hqueue => exact .inr ⟨c, hqueue ▸ List.mem_cons_self, rfl⟩
    · rw [h, Bool.and_false, if_neg Bool.false_ne_true]
      exact .inl rfl

/-- Once the end was received it is all that is received. -/
theorem Later.receive_ended (h : o.Later o') (hsubscribed : o.isSubscribed = false)
    (hended : o.receive.1 = .ended) : o'.receive.1 = .ended := by
  have hover : o.isFinished = true ∨ o.queue = [] := by
    unfold receive at hended
    split at hended
    · next hfinished => exact .inl hfinished
    · split at hended
      · cases hended
      · next hqueue => exact .inr hqueue
  rcases hover with hfinished | hqueue
  · simp [receive, h.finished hfinished]
  · have hqueue' : o'.queue = [] := List.suffix_nil.mp (hqueue ▸ h.queue hsubscribed)
    rcases receive_of_unsubscribed (h.unsubscribed hsubscribed) with hend | ⟨c, hc, -⟩
    · exact hend
    · rw [hqueue'] at hc
      cases hc

end Observer

namespace Store

/-- A store with its observers numbered in order, and none of them sent anything once its token was
ended. -/
structure Regular (s : Store) : Prop where
  numbered : s.Numbered
  observers : ∀ o ∈ s.observers, o.Regular

/-- What a store can become: every observer is still there. -/
structure Later (s s' : Store) : Prop where
  regular : s.Regular → s'.Regular
  observer : ∀ id o, s.observer? id = some o → ∃ o', s'.observer? id = some o' ∧ o.Later o'

variable {s s' s'' : Store} {id : Nat} {m : Model} {o : Observer}

theorem later_refl (s : Store) : s.Later s :=
  ⟨id, fun _ o ho => ⟨o, ho, o.later_refl⟩⟩

theorem Later.trans (h : s.Later s') (h' : s'.Later s'') : s.Later s'' := by
  refine ⟨h'.regular ∘ h.regular, fun id o ho => ?_⟩
  obtain ⟨o', ho', hlater⟩ := h.observer id o ho
  obtain ⟨o'', ho'', hlater'⟩ := h'.observer id o' ho'
  exact ⟨o'', ho'', hlater.trans hlater'⟩

theorem Numbered.eq_of_subscription (h : s.Numbered) {o o' : Observer} (ho : o ∈ s.observers)
    (ho' : o' ∈ s.observers) (hid : o.subscription = o'.subscription) : o = o' :=
  List.inj_on_of_nodup_map (h ▸ List.nodup_range') ho ho' hid

theorem later_of_map {f : Observer → Observer} (hs' : s'.observers = s.observers.map f)
    (hsubscription : ∀ o, (f o).subscription = o.subscription)
    (hf : ∀ o ∈ s.observers, o.Later (f o)) : s.Later s' := by
  refine ⟨fun h => ⟨numbered_of_map hs' hsubscription h.numbered, fun o ho => ?_⟩,
    fun id o ho => ⟨f o, observer_of_map hs' hsubscription ho, ?_⟩⟩
  · rw [hs'] at ho
    obtain ⟨o', ho', rfl⟩ := List.mem_map.mp ho
    exact (hf o' ho').regular (h.observers o' ho')
  · exact hf o (List.mem_of_find?_eq_some ho)

theorem later_updateObserver {f : Observer → Observer} (hf : ∀ o : Observer, o.Later (f o))
    (id : Nat) : s.Later (s.updateObserver id f) := by
  have hlater : ∀ o : Observer, o.Later (if o.subscription = id then f o else o) := by
    intro o
    split
    · exact hf o
    · exact o.later_refl
  exact later_of_map (f := fun o => if o.subscription = id then f o else o) rfl
    (fun o => (hlater o).subscription) fun o _ => hlater o

theorem later_invalidate (s : Store) (id : Nat) : s.Later (s.invalidate id).2 := by
  unfold invalidate
  split
  · exact s.later_refl
  · exact later_updateObserver Observer.later_invalidate id

theorem later_invalidateAll (s : Store) (ids : List Nat) : s.Later (s.invalidateAll ids) := by
  induction ids generalizing s with
  | nil => exact s.later_refl
  | cons id rest ih => exact (s.later_invalidate id).trans (ih _)

theorem later_cancel (s : Store) (id : Nat) : s.Later (s.cancel id) :=
  later_updateObserver Observer.later_cancel id

theorem later_discard (s : Store) : s.Later s.discard :=
  later_of_map rfl (fun _ => rfl) fun o _ => o.later_unsubscribe

theorem later_receive (h : s.Numbered) (id : Nat) : s.Later (s.receive id).2 := by
  unfold receive
  split
  · exact s.later_refl
  · next o ho =>
    have hid := subscription_of_observer ho
    refine later_of_map (f := fun o' => if o'.subscription = id then o.receive.2 else o') rfl
      (fun o' => ?_) fun o' ho' => ?_
    · split
      · next hid' => exact (o.subscription_receive.trans hid).trans hid'.symm
      · rfl
    · split
      · next hid' =>
        have hsame := h.eq_of_subscription ho' (List.mem_of_find?_eq_some ho) (hid'.trans hid.symm)
        exact hsame ▸ o'.later_receive
      · exact o'.later_refl

/-- What a commit makes of an observer: it is told of the copy that there is of its table. -/
def committedTo (s : Store) (t : Transaction) (o : Observer) : Observer :=
  match t.staged.get? o.model.typeName with
  | some table => o.told (s.tables.table o.model.typeName) table
  | none => o

theorem observers_commit {t : Transaction} (hnames : (t.staged.map Prod.fst).Nodup) :
    (s.commit t).observers = s.observers.map (s.committedTo t) :=
  foldl_notify s.tables hnames s.observers

theorem table_commit {t : Transaction} (hnames : (t.staged.map Prod.fst).Nodup) (name : String) :
    (s.commit t).tables.table name = ((t.staged.get? name).getD (s.tables.table name)) := by
  simp only [commit, Tables.table, Tables.get_foldl_set hnames]
  cases t.staged.get? name <;> rfl

theorem later_committedTo (s : Store) (t : Transaction) (o : Observer) :
    o.Later (s.committedTo t o) := by
  unfold committedTo
  split
  · exact o.later_told _ _
  · exact o.later_refl

theorem later_commit {t : Transaction} (hnames : (t.staged.map Prod.fst).Nodup) :
    s.Later (s.commit t) :=
  have hlater := s.later_committedTo t
  later_of_map (observers_commit hnames) (fun o => (hlater o).subscription) fun o _ => hlater o

theorem later_observe {isReachable : Bool} (s : Store) (m : Model) :
    s.Later (s.observe m isReachable).2 := by
  refine ⟨fun h => ⟨numbered_observe h.numbered, fun o ho => ?_⟩,
    fun id o ho => ⟨o, observer_observe m ho, o.later_refl⟩⟩
  unfold observe at ho
  split at ho
  · exact h.observers o ho
  · rcases List.mem_append.mp ho with ho | ho
    · exact h.observers o ho
    · obtain rfl := List.mem_singleton.mp ho
      exact fun hi => nomatch hi

theorem regular_empty (identifier : String) : Regular { identifier := identifier } :=
  ⟨rfl, fun _ ho => absurd ho List.not_mem_nil⟩

end Store

end RecordStore
