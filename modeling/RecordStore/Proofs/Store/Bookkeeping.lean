import Mathlib.Data.Set.Card
import RecordStore.Proofs.Store.Delivery

/-!
The list of subscriptions. A subscription is in it from when it was started until its token is
ended, a delivery to it fails or the store is discarded, and it does not come back. A token is ended
once, by whatever comes first; and what ends one says nothing to the observers of another, for two
stores that differ in some observers make the same of all others.
-/
namespace RecordStore

def Received.isLast : Received → Bool
  | .pending => false
  | .ended => true
  | .change c => c.records?.isNone

namespace Store

def Happens (P : Store → Event → Prop) : Store → List Event → Prop
  | _, [] => False
  | s, e :: rest => P s e ∨ Happens P (s.step e) rest

/-- Whether an event ends a token. Receiving the end or an error does. -/
def Revokes (id : Nat) (s : Store) : Event → Prop
  | .invalidate j | .cancel j => j = id
  | .close ids => id ∈ ids
  | .receive j => j = id ∧ (s.receive id).1.isLast = true
  | .write .. | .observe .. | .discard => False

/-- Whether an event fails to deliver what is new to a subscription: it does not arrive, or cannot
be read. -/
def Loses (m : Model) (isReachable : Bool) (id : Nat) (s : Store) (e : Event) : Prop :=
  id ∈ s.subscriptions ∧
    ∃ c, s.news m (s.step e) = some c ∧ (isReachable = false ∨ c.records? = none)

def Removes (m : Model) (isReachable : Bool) (id : Nat) (s : Store) (e : Event) : Prop :=
  Revokes id s e ∨ Loses m isReachable id s e ∨ e = .discard

/-- The start of a subscription in the course of events. -/
structure Start (s : Store) (events : List Event) (id : Nat) where
  before : List Event
  model : Model
  isReachable : Bool
  later : List Event
  events_eq : events = before ++ .observe model isReachable :: later
  started : ((s.after before).observe model isReachable).1 = .ok id

namespace Start

variable {s : Store} {events : List Event} {id : Nat}

/-- The store in which a subscription was just started. -/
def store (start : Start s events id) : Store :=
  (s.after start.before).step (.observe start.model start.isReachable)

def IsValid (start : Start s events id) : Prop :=
  ¬ Happens (Revokes id) start.store start.later

def IsLive (start : Start s events id) : Prop :=
  ¬ Happens (Removes start.model start.isReachable id) start.store start.later

end Start

end Store

/-- An observer whose token and subscription are as said. -/
structure Observer.Stands (o : Observer) (id : Nat) (m : Model) (isReachable : Bool)
    (isRevoked isLive : Prop) : Prop where
  subscription : o.subscription = id
  model : o.model = m
  reachable : o.isReachable = isReachable
  finished : o.isFinished = true → o.isInvalidated = true
  ended : o.isInvalidated = true → o.isSubscribed = false
  invalidated : o.isInvalidated = true ↔ isRevoked
  subscribed : o.isSubscribed = true ↔ isLive

namespace Observer.Stands

variable {o : Observer} {id : Nat} {m : Model} {isReachable : Bool} {isRevoked isLive : Prop}

theorem start (id : Nat) (m : Model) (records : List Record) (isReachable : Bool) :
    (Observer.start id m records isReachable).Stands id m isReachable False True where
  subscription := rfl
  model := rfl
  reachable := rfl
  finished := fun h => nomatch h
  ended := fun h => nomatch h
  invalidated := ⟨fun h => (nomatch h), False.elim⟩
  subscribed := ⟨fun _ => trivial, fun _ => rfl⟩

theorem invalidate (h : o.Stands id m isReachable isRevoked isLive) :
    o.invalidate.Stands id m isReachable True False := by
  unfold Observer.invalidate
  split
  · next hi =>
    have hsubscribed : o.isSubscribed = false := h.ended hi
    exact ⟨h.subscription, h.model, h.reachable, h.finished, h.ended, iff_true_intro hi,
      by simp [hsubscribed]⟩
  · exact ⟨h.subscription, h.model, h.reachable, fun _ => rfl, fun _ => rfl, iff_true_intro rfl,
      ⟨fun h => (nomatch h), False.elim⟩⟩

theorem finish (h : o.Stands id m isReachable isRevoked isLive) :
    o.finish.Stands id m isReachable True False :=
  ⟨h.invalidate.subscription, h.invalidate.model, h.invalidate.reachable,
    fun _ => h.invalidate.invalidated.mpr trivial, h.invalidate.ended, h.invalidate.invalidated,
    h.invalidate.subscribed⟩

theorem cancel (h : o.Stands id m isReachable isRevoked isLive) :
    o.cancel.Stands id m isReachable True False :=
  ⟨h.finish.subscription, h.finish.model, h.finish.reachable, h.finish.finished, h.finish.ended,
    h.finish.invalidated, h.finish.subscribed⟩

theorem unsubscribe (h : o.Stands id m isReachable isRevoked isLive) :
    Stands { o with isSubscribed := false } id m isReachable isRevoked False :=
  ⟨h.subscription, h.model, h.reachable, h.finished, fun _ => rfl, h.invalidated,
    ⟨fun h => (nomatch h), False.elim⟩⟩

/-- A change is lost to an observer that cannot be reached, and nothing follows an error. -/
theorem send (h : o.Stands id m isReachable isRevoked isLive) (c : Change) :
    (if o.isSubscribed then o.send c else o).Stands id m isReachable isRevoked
      (isLive ∧ ¬ (isReachable = false ∨ c.records? = none)) := by
  cases hsubscribed : o.isSubscribed with
  | false =>
    have hnot : ¬ isLive := fun hlive => by simp [h.subscribed.mpr hlive] at hsubscribed
    exact ⟨h.subscription, h.model, h.reachable, h.finished, h.ended, h.invalidated,
      by simp [hsubscribed, hnot]⟩
  | true =>
    have hlive : isLive := h.subscribed.mp hsubscribed
    have hvalid : o.isInvalidated ≠ true := fun hi => by simp [h.ended hi] at hsubscribed
    refine ⟨h.subscription, h.model, h.reachable, h.finished, fun hi => absurd hi hvalid,
      h.invalidated, ?_⟩
    simp only [if_true, Observer.send, h.reachable, hlive, true_and]
    cases isReachable <;> cases c.records? <;> simp

/-- Receiving the end or an error ends the token. -/
theorem receive (h : o.Stands id m isReachable isRevoked isLive) :
    o.receive.2.Stands id m isReachable (isRevoked ∨ o.receive.1.isLast = true)
      (isLive ∧ ¬ o.receive.1.isLast = true) := by
  unfold Observer.receive
  split
  · next hfinished =>
    have hi := h.finished hfinished
    have hsubscribed : o.isSubscribed = false := h.ended hi
    exact ⟨h.subscription, h.model, h.reachable, h.finished, h.ended,
      by simp [hi, Received.isLast], by simp [hsubscribed, Received.isLast]⟩
  · split
    · next c rest hqueue =>
      have hrest : Stands { o with queue := rest } id m isReachable isRevoked isLive :=
        ⟨h.subscription, h.model, h.reachable, h.finished, h.ended, h.invalidated, h.subscribed⟩
      cases hc : c.records? with
      | some records => simpa [Received.isLast, hc] using hrest
      | none => simpa [Received.isLast, hc] using hrest.finish
    · split
      · simpa [Received.isLast] using h
      · simpa [Received.isLast] using h.finish

end Observer.Stands

namespace Store

variable {models : Model → Prop} {s : Store} {m : Model} {isReachable : Bool} {id : Nat}
  {o : Observer} {isRevoked isLive : Prop}

/-- What one event makes of the token and the subscription of an observer. -/
theorem stands_step (hmodels : ∀ m, models m → m.Sound) (hs : View.Sound models s.tables.table)
    (hnumbered : s.Numbered) {e : Event} (he : e.Typed models) (ho : s.observer? id = some o)
    (h : o.Stands id m isReachable isRevoked isLive) :
    (e.onObserver s o).Stands id m isReachable (isRevoked ∨ Revokes id s e)
      (isLive ∧ ¬ Removes m isReachable id s e) := by
  have hquiet (hwrite : ∀ c body, e ≠ .write c body) : ¬ Loses m isReachable id s e := by
    rintro ⟨-, c, hnews, -⟩
    rw [news_of_eq hmodels hs (tables_step s hwrite)] at hnews
    cases hnews
  cases e with
  | write c body =>
    have hs' := step_sound hmodels hs he
    have htold := told_eq (hs o.model.typeName).ordered (hs' o.model.typeName).ordered
    rw [show Event.onObserver s (.write c body) o = _ from htold, h.model]
    have hlisted : id ∈ s.subscriptions ↔ isLive :=
      (mem_subscriptions_iff hnumbered ho).trans h.subscribed
    simp only [Removes, Revokes, Loses, hlisted, reduceCtorEq, or_false, false_or]
    cases s.news m (s.step (.write c body)) with
    | none => simpa using h
    | some c =>
      have hsent := h.send c
      simp only [Option.some.injEq, exists_eq_left']
      refine ⟨hsent.subscription, hsent.model, hsent.reachable, hsent.finished, hsent.ended,
        hsent.invalidated, hsent.subscribed.trans ?_⟩
      tauto
  | observe m' isReachable' =>
    simpa [Event.onObserver, Removes, Revokes, hquiet] using h
  | receive j =>
    simp only [Event.onObserver, h.subscription, Removes, Revokes, hquiet (by simp),
      reduceCtorEq, or_false]
    by_cases hj : id = j
    · simp only [hj, if_true, true_and]
      rw [← hj, receive_eq ho]
      exact h.receive
    · simpa [hj, Ne.symm hj] using h
  | invalidate j =>
    simp only [Event.onObserver, h.subscription, Removes, Revokes, hquiet (by simp),
      reduceCtorEq, or_false]
    by_cases hj : id = j
    · simpa [hj] using h.invalidate
    · simpa [hj, Ne.symm hj] using h
  | close ids =>
    simp only [Event.onObserver, h.subscription, Removes, Revokes, hquiet (by simp),
      reduceCtorEq, or_false]
    by_cases hj : id ∈ ids
    · simpa [hj] using h.invalidate
    · simpa [hj] using h
  | cancel j =>
    simp only [Event.onObserver, h.subscription, Removes, Revokes, hquiet (by simp),
      reduceCtorEq, or_false]
    by_cases hj : id = j
    · simpa [hj] using h.cancel
    · simpa [hj, Ne.symm hj] using h
  | discard => simpa [Event.onObserver, Removes, Revokes] using h.unsubscribe

/-- After some events an observer is revoked if one of them revokes it, and live if none removes
it. -/
theorem stands_after (hmodels : ∀ m, models m → m.Sound) :
    ∀ (events : List Event) (s : Store) (o : Observer) (isRevoked isLive : Prop),
      (∀ e ∈ events, e.Typed models) → View.Sound models s.tables.table → s.Numbered →
      s.observer? id = some o → o.Stands id m isReachable isRevoked isLive →
      ∃ o', (s.after events).observer? id = some o' ∧
        o'.Stands id m isReachable (isRevoked ∨ Happens (Revokes id) s events)
          (isLive ∧ ¬ Happens (Removes m isReachable id) s events)
  | [], _, o, _, _, _, _, _, ho, h => ⟨o, ho, by simpa [Happens] using h⟩
  | e :: rest, s, o, _, _, hevents, hs, hnumbered, ho, h => by
    have he := hevents e (List.mem_cons_self ..)
    have hs' := step_sound hmodels hs he
    obtain ⟨o', ho', h'⟩ := stands_after hmodels rest (s.step e) _ _ _
      (fun e he => hevents e (List.mem_cons_of_mem _ he)) hs'
      (numbered_step hmodels hs he hnumbered) (observer_step hmodels hs he ho)
      (stands_step hmodels hs hnumbered he ho h)
    refine ⟨o', ho', ?_⟩
    simpa only [Happens, not_or, or_assoc, and_assoc] using h'

def started? (s : Store) : Event → Option Observer
  | .observe m isReachable =>
    match s.objects m with
    | .ok records => some (.start s.nextSubscription m records isReachable)
    | .error _ => none
  | _ => none

theorem length_invalidate (s : Store) (j : Nat) :
    (s.invalidate j).2.observers.length = s.observers.length := by
  unfold invalidate
  split
  · rfl
  · exact List.length_map _

theorem length_invalidateAll (s : Store) (ids : List Nat) :
    (s.invalidateAll ids).observers.length = s.observers.length := by
  induction ids generalizing s with
  | nil => rfl
  | cons j rest ih => exact (ih _).trans (length_invalidate s j)

theorem length_receive (s : Store) (j : Nat) :
    (s.receive j).2.observers.length = s.observers.length := by
  unfold receive
  split
  · rfl
  · exact List.length_map _

/-- An event adds the observer that it starts, and takes none away. -/
theorem length_step (hmodels : ∀ m, models m → m.Sound) (hs : View.Sound models s.tables.table)
    (e : Event) :
    (s.step e).observers.length = s.observers.length + (s.started? e).toList.length := by
  cases e with
  | write c body =>
    have hw := written hmodels hs c body
    show (s.write c body.run).2.observers.length = _
    generalize s.write c body.run = result at hw ⊢
    cases hw with
    | committed hc hbody hs' => rw [hs'.observers, List.length_map]; rfl
    | failed => rfl
    | refused => rfl
  | observe m isReachable =>
    show (s.observe m isReachable).2.observers.length = _
    cases hobjects : s.objects m <;> simp [observe, started?, hobjects]
  | receive j => exact length_receive s j
  | invalidate j => exact length_invalidate s j
  | close ids => exact length_invalidateAll s ids
  | cancel j => exact List.length_map _
  | discard => exact List.length_map _

/-- The observer under a number is what the event makes of the one that was there, or is the one
that it starts. -/
theorem observer_step_eq (hmodels : ∀ m, models m → m.Sound)
    (hs : View.Sound models s.tables.table) (hnumbered : s.Numbered) {e : Event}
    (he : e.Typed models) (id : Nat) :
    (s.step e).observer? id =
      match s.observer? id with
      | some o => some (e.onObserver s o)
      | none => (s.started? e).filter (·.subscription = id) := by
  cases ho : s.observer? id with
  | some o => exact observer_step hmodels hs he ho
  | none =>
    have hlength := length_step hmodels hs e
    have hnumbered' := numbered_step hmodels hs he hnumbered
    have hold := (observer_eq_none_iff hnumbered).mp ho
    by_cases hobserve : ∃ m isReachable, e = .observe m isReachable
    · obtain ⟨m, isReachable, rfl⟩ := hobserve
      show (s.observe m isReachable).2.observer? id = _
      cases hobjects : s.objects m with
      | error e => simpa [observe, started?, hobjects] using ho
      | ok records =>
        simp only [observe, started?, hobjects, observer?, List.find?_append] at ho ⊢
        by_cases hid : s.nextSubscription = id <;> simp [ho, hid, Observer.start, Option.filter]
    · have hnothing : s.started? e = none := by
        cases e with
        | observe m isReachable => exact absurd ⟨m, isReachable, rfl⟩ hobserve
        | _ => rfl
      rw [hnothing] at hlength ⊢
      refine (observer_eq_none_iff hnumbered').mpr (hold.imp_right fun h => ?_)
      rw [nextSubscription, hlength]
      exact h

/-- Only an observation that succeeds starts an observer. -/
theorem started_eq_some {e : Event} (h : s.started? e = some o) :
    ∃ m isReachable records, e = .observe m isReachable ∧
      (s.observe m isReachable).1 = .ok o.subscription ∧
      o = .start o.subscription m records isReachable := by
  cases e with
  | observe m isReachable =>
    simp only [started?] at h
    split at h
    · next records hrecords =>
      obtain rfl := Option.some.inj h
      exact ⟨m, isReachable, records, rfl, by simp [observe, hrecords, Observer.start], rfl⟩
    · cases h
  | _ => cases h

/-- Every observer was started. -/
theorem start_of_observer (hmodels : ∀ m, models m → m.Sound) :
    ∀ (events : List Event) (s : Store), (∀ e ∈ events, e.Typed models) →
      View.Sound models s.tables.table → s.Numbered → s.observer? id = none →
      ((s.after events).observer? id).isSome → Nonempty (Start s events id)
  | [], s, _, _, _, hnone, h => by
    rw [show s.after [] = s from rfl, hnone] at h
    cases h
  | e :: rest, s, hevents, hs, hnumbered, hnone, h => by
    have he := hevents e (List.mem_cons_self ..)
    have hs' := step_sound hmodels hs he
    have hnumbered' := numbered_step hmodels hs he hnumbered
    cases ho : (s.step e).observer? id with
    | none =>
      obtain ⟨start⟩ := start_of_observer hmodels rest (s.step e)
        (fun e he => hevents e (List.mem_cons_of_mem _ he)) hs' hnumbered' ho h
      exact ⟨⟨e :: start.before, start.model, start.isReachable, start.later,
        congrArg (e :: ·) start.events_eq, start.started⟩⟩
    | some o =>
      rw [observer_step_eq hmodels hs hnumbered he, hnone, Option.filter_eq_some_iff] at ho
      obtain ⟨hstarted, hid⟩ := ho
      obtain ⟨m, isReachable, -, rfl, hobserve, -⟩ := started_eq_some hstarted
      rw [of_decide_eq_true hid] at hobserve
      exact ⟨⟨[], m, isReachable, rest, rfl, hobserve⟩⟩

theorem start_of_after {events : List Event} (hevents : ∀ e ∈ events, e.Typed Model.Sound)
    (identifier : String) (ho : (after { identifier := identifier } events).observer? id = some o) :
    Nonempty (Start { identifier := identifier } events id) :=
  start_of_observer (fun _ h => h) events _ hevents (sound_empty _ identifier) rfl rfl
    (by rw [ho]; rfl)

namespace Start

variable {identifier : String} {events : List Event}

theorem typed_before (start : Start s events id) (hevents : ∀ e ∈ events, e.Typed models) :
    ∀ e ∈ start.before, e.Typed models := fun e he =>
  hevents e (start.events_eq ▸ List.mem_append_left _ he)

theorem typed_later (start : Start s events id) (hevents : ∀ e ∈ events, e.Typed models) :
    ∀ e ∈ start.later, e.Typed models := fun e he =>
  hevents e (start.events_eq ▸ List.mem_append_right _ (List.mem_cons_of_mem _ he))

theorem after_later (start : Start s events id) :
    start.store.after start.later = s.after events := by
  conv_rhs => rw [start.events_eq, after_append]
  rfl

/-- The observer that was started stands as the events since make it. -/
theorem stands (start : Start { identifier := identifier } events id)
    (hevents : ∀ e ∈ events, e.Typed Model.Sound) :
    ∃ o, (after { identifier := identifier } events).observer? id = some o ∧
      o.Stands id start.model start.isReachable (¬ start.IsValid) start.IsLive := by
  have hbefore := start.typed_before hevents
  have hs := after_sound (fun _ h => h) hbefore (sound_empty _ identifier)
  have hnumbered := numbered_after (fun _ h => h) start.before { identifier := identifier } hbefore
    (sound_empty _ identifier) rfl
  have hobserve : (after { identifier := identifier } start.before).observe start.model
      start.isReachable = (.ok id, start.store) := Prod.ext start.started rfl
  obtain ⟨records, -, htables, ho⟩ := observe_eq_ok hnumbered hobserve
  have hs' : View.Sound Model.Sound start.store.tables.table := htables ▸ hs
  have hnumbered' : start.store.Numbered := numbered_observe hnumbered
  obtain ⟨o', ho', h⟩ := stands_after (fun _ h => h) start.later start.store _ _ _
    (start.typed_later hevents) hs' hnumbered' ho (.start id start.model records start.isReachable)
  rw [start.after_later] at ho'
  refine ⟨o', ho', ?_⟩
  simpa only [IsValid, IsLive, not_not, false_or, true_and] using h

end Start

def Event.Concerns (id : Nat) : Event → Prop
  | .receive j | .invalidate j | .cancel j => j = id
  | .close ids => id ∈ ids
  | .write .. | .observe .. | .discard => True

/-- Stores that differ at most in some of their observers. -/
structure AgreesBut (s s' : Store) (P : Nat → Prop) : Prop where
  tables : s'.tables = s.tables
  length : s'.observers.length = s.observers.length
  observers : ∀ id, ¬ P id → s'.observer? id = s.observer? id

theorem started_congr {s' : Store} {P : Nat → Prop} (h : s.AgreesBut s' P) (e : Event) :
    s'.started? e = s.started? e := by
  cases e with
  | observe m isReachable => simp only [started?, objects, h.tables, nextSubscription, h.length]
  | _ => rfl

/-- What an event makes of the tables does not depend on who observes them. -/
theorem tables_step_congr {s s' : Store} (h : s'.tables = s.tables) (e : Event) :
    (s'.step e).tables = (s.step e).tables := by
  by_cases hwrite : ∀ c body, e ≠ .write c body
  · rw [tables_step s hwrite, tables_step s' hwrite, h]
  · obtain ⟨c, body, rfl⟩ : ∃ c body, e = .write c body := by
      simpa using hwrite
    show (s'.write c body.run).2.tables = (s.write c body.run).2.tables
    have hbegin : s'.begin = s.begin :=
      congrArg (fun tables => ({ base := tables } : Transaction)) h
    unfold write
    split
    · exact h
    · rw [transact_eq, transact_eq, hbegin]
      rcases outcome body.run s.begin with ⟨_ | _, t⟩
      · exact h
      · simp only [commit, h]

theorem onObserver_congr {s' : Store} (h : s'.tables = s.tables) (e : Event) (o : Observer) :
    e.onObserver s' o = e.onObserver s o := by
  cases e with
  | write c body => simp only [Event.onObserver, tables_step_congr h, h]
  | _ => rfl

theorem onObserver_of_not_concerns {e : Event} (h : ¬ e.Concerns o.subscription) :
    e.onObserver s o = o := by
  cases e with
  | write c body => exact absurd trivial h
  | observe m isReachable => exact absurd trivial h
  | discard => exact absurd trivial h
  | receive j => exact if_neg (Ne.symm h)
  | invalidate j => exact if_neg (Ne.symm h)
  | cancel j => exact if_neg (Ne.symm h)
  | close ids => exact if_neg h

namespace AgreesBut

variable {s' : Store} {P : Nat → Prop}

/-- Two stores that differ in some observers make the same of all others. -/
theorem step (hmodels : ∀ m, models m → m.Sound) (hs : View.Sound models s.tables.table)
    (hnumbered : s.Numbered) (hnumbered' : s'.Numbered) {e : Event} (he : e.Typed models)
    (h : s.AgreesBut s' P) : (s.step e).AgreesBut (s'.step e) P := by
  have hs' : View.Sound models s'.tables.table := h.tables ▸ hs
  refine ⟨tables_step_congr h.tables e, ?_, fun id hid => ?_⟩
  · rw [length_step hmodels hs, length_step hmodels hs', started_congr h, h.length]
  · rw [observer_step_eq hmodels hs hnumbered he, observer_step_eq hmodels hs' hnumbered' he,
      h.observers id hid, started_congr h]
    simp only [onObserver_congr h.tables]

/-- Stores that differ in some observers differ in no others after the same events. -/
theorem after (hmodels : ∀ m, models m → m.Sound) :
    ∀ (events : List Event) (s s' : Store), (∀ e ∈ events, e.Typed models) →
      View.Sound models s.tables.table → s.Numbered → s'.Numbered → s.AgreesBut s' P →
      (s.after events).AgreesBut (s'.after events) P
  | [], _, _, _, _, _, _, h => h
  | e :: rest, s, s', hevents, hs, hnumbered, hnumbered', h => by
    have he := hevents e (List.mem_cons_self ..)
    have hs' : View.Sound models s'.tables.table := h.tables ▸ hs
    exact after hmodels rest (s.step e) (s'.step e)
      (fun e he => hevents e (List.mem_cons_of_mem _ he)) (step_sound hmodels hs he)
      (numbered_step hmodels hs he hnumbered) (numbered_step hmodels hs' he hnumbered')
      (h.step hmodels hs hnumbered hnumbered' he)

end AgreesBut

/-- An event that does not concern an observer changes nothing but what concerns others. -/
theorem agreesBut_step (hmodels : ∀ m, models m → m.Sound) (hs : View.Sound models s.tables.table)
    (hnumbered : s.Numbered) {e : Event} (he : e.Typed models) (h : ¬ e.Concerns id) :
    s.AgreesBut (s.step e) (e.Concerns ·) := by
  have hwrite : ∀ c body, e ≠ .write c body := by
    rintro c body rfl
    exact h trivial
  have hnothing : s.started? e = none := by
    cases e with
    | observe m isReachable => exact absurd trivial h
    | _ => rfl
  refine ⟨tables_step s hwrite, ?_, fun j hj => ?_⟩
  · rw [length_step hmodels hs, hnothing]
    rfl
  · rw [observer_step_eq hmodels hs hnumbered he, hnothing]
    cases ho : s.observer? j with
    | none => rfl
    | some o =>
      rw [← subscription_of_observer ho] at hj
      exact congrArg some (onObserver_of_not_concerns hj)

theorem observer_of_mem_subscriptions (h : id ∈ s.subscriptions) :
    ∃ o, s.observer? id = some o := by
  obtain ⟨o, ho, rfl⟩ := List.mem_map.mp h
  refine Option.isSome_iff_exists.mp (List.find?_isSome.mpr ⟨o, (List.mem_filter.mp ho).1, ?_⟩)
  exact beq_self_eq_true _

theorem nodup_subscriptions (h : s.Numbered) : s.subscriptions.Nodup :=
  (h ▸ List.nodup_range' : (s.observers.map Observer.subscription).Nodup).sublist
    (List.filter_sublist.map _)

/-- A token that was ended is left as it is. -/
theorem invalidate_eq_self (h : s.Numbered) (hold : (s.invalidate id).1 = false) :
    (s.invalidate id).2 = s := by
  have hnodup : (s.observers.map Observer.subscription).Nodup := h ▸ List.nodup_range'
  unfold invalidate at hold ⊢
  split at hold
  · rfl
  · next o ho =>
    have hinvalidated : o.isInvalidated = true := by simpa using hold
    have hsame : ∀ o' ∈ s.observers,
        (if o'.subscription = id then o'.invalidate else o') = o' := by
      intro o' ho'
      split
      · next hid =>
        have heq := List.inj_on_of_nodup_map hnodup ho' (List.mem_of_find?_eq_some ho)
          (hid.trans (subscription_of_observer ho).symm)
        rw [heq, Observer.invalidate, if_pos hinvalidated]
      · rfl
    simp only [updateObserver, List.map_congr_left hsame, List.map_id']

theorem observe_eq_self {e : StoreError} (h : (s.observe m isReachable).1 = .error e) :
    (s.observe m isReachable).2 = s := by
  unfold observe at h ⊢
  split
  · rfl
  · next hrecords =>
    rw [hrecords] at h
    cases h

theorem nextSubscription_of_observe (h : (s.observe m isReachable).1 = .ok id) :
    s.nextSubscription = id := by
  unfold observe at h
  split at h
  · cases h
  · exact Except.ok.inj h

section History

variable {identifier : String} {events : List Event}

/-- The subscriptions of a store are those that were started and that nothing has ended since. -/
theorem mem_subscriptions_iff_live (hevents : ∀ e ∈ events, e.Typed Model.Sound) :
    id ∈ (after { identifier := identifier } events).subscriptions ↔
      ∃ start : Start { identifier := identifier } events id, start.IsLive := by
  have hnumbered := numbered_after (fun _ h => h) events { identifier := identifier } hevents
    (sound_empty _ identifier) rfl
  constructor
  · intro hid
    obtain ⟨o, ho⟩ := observer_of_mem_subscriptions hid
    obtain ⟨start⟩ := start_of_after hevents identifier ho
    obtain ⟨o', ho', h⟩ := start.stands hevents
    exact ⟨start, h.subscribed.mp ((mem_subscriptions_iff hnumbered ho').mp hid)⟩
  · rintro ⟨start, hlive⟩
    obtain ⟨o, ho, h⟩ := start.stands hevents
    exact (mem_subscriptions_iff hnumbered ho).mpr (h.subscribed.mpr hlive)

/-- The call that ends a token says that it did. -/
theorem invalidate_iff_valid (hevents : ∀ e ∈ events, e.Typed Model.Sound) :
    ((after { identifier := identifier } events).invalidate id).1 = true ↔
      ∃ start : Start { identifier := identifier } events id, start.IsValid := by
  constructor
  · intro hid
    unfold invalidate at hid
    split at hid
    · cases hid
    · next o ho =>
      obtain ⟨start⟩ := start_of_after hevents identifier ho
      obtain ⟨o', ho', h⟩ := start.stands hevents
      obtain rfl := Option.some.inj (ho.symm.trans ho')
      refine ⟨start, fun hover => ?_⟩
      rw [h.invalidated.mpr (not_not.mpr hover)] at hid
      cases hid
  · rintro ⟨start, hvalid⟩
    obtain ⟨o, ho, h⟩ := start.stands hevents
    have hinvalidated : o.isInvalidated = false :=
      Bool.eq_false_iff.mpr fun hi => h.invalidated.mp hi hvalid
    simp [invalidate, ho, hinvalidated]

/-- What ends a token takes its subscription out of the list. -/
theorem not_mem_subscriptions_of_revokes (hevents : ∀ e ∈ events, e.Typed Model.Sound)
    {e : Event} (h : Revokes id (after { identifier := identifier } events) e) :
    id ∉ ((after { identifier := identifier } events).step e).subscriptions := by
  have hs := after_sound (fun _ h => h) hevents (sound_empty _ identifier)
  have hnumbered := numbered_after (fun _ h => h) events { identifier := identifier } hevents
    (sound_empty _ identifier) rfl
  have he : e.Typed Model.Sound := by
    cases e with
    | write c body => exact h.elim
    | _ => trivial
  have hnothing : (after { identifier := identifier } events).started? e = none := by
    cases e with
    | observe m isReachable => exact h.elim
    | _ => rfl
  intro hid
  cases ho : (after { identifier := identifier } events).observer? id with
  | none =>
    obtain ⟨o', ho'⟩ := observer_of_mem_subscriptions hid
    rw [observer_step_eq (fun _ h => h) hs hnumbered he, ho, hnothing] at ho'
    cases ho'
  | some o =>
    obtain ⟨start⟩ := start_of_after hevents identifier ho
    obtain ⟨o', ho', hstands⟩ := start.stands hevents
    have hstep := stands_step (fun _ h => h) hs hnumbered he ho' hstands
    have hnumbered' := numbered_step (fun _ h => h) hs he hnumbered
    have ho'' := observer_step (fun _ h => h) hs he ho'
    exact (hstep.subscribed.mp ((mem_subscriptions_iff hnumbered' ho'').mp hid)).2 (Or.inl h)

end History

/-- A store whose list of subscriptions is what the events before make it. A new subscription gets
a number that no other had, a token is ended by the first call to end it, and what concerns one
observer leaves all others as they are. -/
structure Keeps (s : Store) (events : List Event) : Prop where
  live : ∀ id, id ∈ (s.after events).subscriptions ↔ ∃ start : Start s events id, start.IsLive
  count : (s.after events).subscriptions.length =
    Set.ncard {id | ∃ start : Start s events id, start.IsLive}
  fresh : ∀ m isReachable id,
    ((s.after events).observe m isReachable).1 = .ok id → IsEmpty (Start s events id)
  failed : ∀ m isReachable e, ((s.after events).observe m isReachable).1 = .error e →
    ((s.after events).observe m isReachable).2 = s.after events
  valid : ∀ id, ((s.after events).invalidate id).1 = true ↔
    ∃ start : Start s events id, start.IsValid
  again : ∀ id, ((s.after events).invalidate id).1 = false →
    ((s.after events).invalidate id).2 = s.after events
  gone : ∀ e id, Revokes id (s.after events) e → id ∉ ((s.after events).step e).subscriptions
  others : ∀ e : Event, e.Typed Model.Sound → ∀ id, ¬ e.Concerns id → ∀ later : List Event,
    (∀ e ∈ later, e.Typed Model.Sound) →
      (((s.after events).step e).after later).observer? id =
        ((s.after events).after later).observer? id

/-- A subscription is in the list of a store just where it was started, its token was not ended,
no delivery to it has failed and the store was not discarded. -/
theorem keeps_subscriptions (identifier : String) {events : List Event}
    (hevents : ∀ e ∈ events, e.Typed Model.Sound) :
    Keeps { identifier := identifier } events := by
  have hs := after_sound (fun _ h => h) hevents (sound_empty _ identifier)
  have hnumbered := numbered_after (fun _ h => h) events { identifier := identifier } hevents
    (sound_empty _ identifier) rfl
  refine ⟨fun id => mem_subscriptions_iff_live hevents, ?_, fun m isReachable id hobserve => ?_,
    fun m isReachable e => observe_eq_self, fun id => invalidate_iff_valid hevents,
    fun id => invalidate_eq_self hnumbered,
    fun e id => not_mem_subscriptions_of_revokes hevents, fun e he id hid later hlater => ?_⟩
  · have hset : {id | ∃ start : Start { identifier := identifier } events id, start.IsLive} =
        (after { identifier := identifier } events).subscriptions.toFinset := by
      ext id
      simp [mem_subscriptions_iff_live hevents]
    rw [hset, Set.ncard_coe_finset, List.toFinset_card_of_nodup (nodup_subscriptions hnumbered)]
  · refine ⟨fun start => ?_⟩
    obtain ⟨o, ho, -⟩ := start.stands hevents
    have hnone := (observer_eq_none_iff hnumbered).mpr
      (Or.inr (nextSubscription_of_observe hobserve).le)
    rw [ho] at hnone
    cases hnone
  · have hagrees := agreesBut_step (fun _ h => h) hs hnumbered he hid
    exact (hagrees.after (fun _ h => h) later _ _ hlater hs hnumbered
      (numbered_step (fun _ h => h) hs he hnumbered)).observers id hid

/-- Three observers of slots. One cannot be reached, and one is ended once a slot is there. -/
def threeObservers : List Event :=
  [.observe .slot true, .observe .slot false, .observe .slot true] ++ slotHistory ++ [.invalidate 1]

/-- The first was ended, the second was not reached, and the third is live. -/
theorem keeps_subscriptions_threeObservers :
    (∀ e ∈ threeObservers, e.Typed Model.Sound) ∧
    Keeps { identifier := "db" } threeObservers ∧
    (after { identifier := "db" } threeObservers).subscriptions = [3] := by
  have htyped : ∀ e ∈ threeObservers, e.Typed Model.Sound := by
    intro e he
    simp only [threeObservers, List.mem_append, List.mem_cons, List.not_mem_nil, or_false] at he
    obtain (((rfl | rfl | rfl) | he) | rfl) := he
    · trivial
    · trivial
    · trivial
    · exact typed_slotHistory e he
    · trivial
  exact ⟨htyped, keeps_subscriptions "db" htyped, rfl⟩

end Store

end RecordStore
