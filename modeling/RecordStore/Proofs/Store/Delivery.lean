import RecordStore.Proofs.Store.Subscription

/-!
What an observer receives. It is sent the records that there were when it started, and then, while
its subscription lives, one change for every event after which its table differs from before: the
new records, or an error after which nothing is sent. It takes these changes in order and each once.
When nothing is left and the subscription has ended, and after an error or once it was cancelled,
all that it receives is the end. What is sent to an observer that cannot be reached is lost.
-/
namespace RecordStore

def Store.news (m : Model) (s s' : Store) : Option Change :=
  if Table.SameRows (s.tables.table m.typeName) (s'.tables.table m.typeName) then none
  else
    match s'.objects m with
    | .ok records => some (.update records
        ((s'.tables.table m.typeName).changesSince (s.tables.table m.typeName)))
    | .error e => some (.error e)

def Store.Event.ends (id : Nat) : Store.Event → Bool
  | .invalidate j | .cancel j => j == id
  | .close ids => ids.contains id
  | .discard => true
  | .write .. | .observe .. | .receive _ => false

def Store.Event.cancels (id : Nat) : Store.Event → Bool
  | .cancel j => j == id
  | _ => false

/-- What was sent to an observer and taken by it. -/
structure Watch where
  sent : List Change
  isLive : Bool := true
  taken : List Change := []
  isOver : Bool := false

namespace Watch

def send (w : Watch) : Option Change → Watch
  | none => w
  | some c =>
    if w.isLive then { w with sent := w.sent ++ [c], isLive := c.records?.isSome } else w

def receive (w : Watch) : Received → Watch
  | .pending => w
  | .ended => { w with isOver := true }
  | .change c => { w with taken := w.taken ++ [c], isOver := w.isOver || c.records?.isNone }

def step (m : Model) (id : Nat) (s : Store) (w : Watch) (e : Store.Event) : Watch :=
  let w := w.send (s.news m (s.step e))
  let w := { w with isLive := w.isLive && !e.ends id, isOver := w.isOver || e.cancels id }
  match e with
  | .receive j => if j = id then w.receive (s.receive id).1 else w
  | _ => w

def after (m : Model) (id : Nat) : Store → Watch → List Store.Event → Watch
  | _, w, [] => w
  | s, w, e :: rest => after m id (s.step e) (w.step m id s e) rest

def next (w : Watch) : Received :=
  if w.isOver then .ended
  else
    match w.sent[w.taken.length]? with
    | some c => .change c
    | none => if w.isLive then .pending else .ended

variable {m : Model} {id : Nat}

theorem isOver_send (w : Watch) (c? : Option Change) : (w.send c?).isOver = w.isOver := by
  unfold send
  split
  · rfl
  · split <;> rfl

theorem isOver_receive {w : Watch} (h : w.isOver = true) (r : Received) :
    (w.receive r).isOver = true := by
  cases r <;> simp [receive, h]

/-- What is over stays over. -/
theorem isOver_step {w : Watch} (h : w.isOver = true) (s : Store) (e : Store.Event) :
    (w.step m id s e).isOver = true := by
  have hsent : (w.send (s.news m (s.step e))).isOver = true := (w.isOver_send _).trans h
  cases e with
  | receive j =>
    simp only [step]
    split
    · exact isOver_receive (by simp [hsent]) _
    · simp [hsent]
  | _ => simp [step, hsent]

theorem isOver_after (events : List Store.Event) {s : Store} {w : Watch} (h : w.isOver = true) :
    (after m id s w events).isOver = true := by
  induction events generalizing s w with
  | nil => exact h
  | cons e rest ih => exact ih (isOver_step h s e)

theorem after_append (events more : List Store.Event) (s : Store) (w : Watch) :
    after m id s w (events ++ more) = after m id (s.after events) (after m id s w events) more := by
  induction events generalizing s w with
  | nil => rfl
  | cons e rest ih => exact ih (s.step e) (w.step m id s e)

end Watch

namespace Store

variable {models : Model → Prop} {s : Store} {o : Observer}

theorem news_of_eq (hmodels : ∀ m, models m → m.Sound) (hs : View.Sound models s.tables.table)
    {m : Model} {s' : Store} (h : s'.tables = s.tables) : s.news m s' = none := by
  have hsame := Table.sameRows_self hmodels (hs m.typeName)
  simp [news, h, hsame]

/-- An observer that is subscribed is sent what is new. -/
theorem told_eq {s' : Store} (hold : (s.tables.table o.model.typeName).Ordered)
    (hnew : (s'.tables.table o.model.typeName).Ordered) :
    o.told (s.tables.table o.model.typeName) (s'.tables.table o.model.typeName) =
      match s.news o.model s' with
      | none => o
      | some c => if o.isSubscribed then o.send c else o := by
  have hempty := Table.changesSince_isEmpty hold hnew
  unfold Observer.told news
  by_cases hsame : Table.SameRows (s.tables.table o.model.typeName)
      (s'.tables.table o.model.typeName)
  · rw [if_pos (hempty.mpr hsame), if_pos hsame]
  · have hnot := mt hempty.mp hsame
    rw [if_neg hnot, if_neg hsame]
    simp only [Observer.notify, Observer.changeOf, objects, beq_self_eq_true, Bool.and_true]
    cases (s'.tables.table o.model.typeName).records o.model <;> rfl

end Store

/-- An observer that was sent and has taken what is said of it. -/
structure Observer.Follows (o : Observer) (m : Model) (id : Nat) (w : Watch) : Prop where
  model : o.model = m
  subscription : o.subscription = id
  reachable : o.isReachable = true
  subscribed : o.isSubscribed = w.isLive
  finished : o.isFinished = w.isOver
  invalidated : o.isInvalidated = true → w.isLive = false
  taken : w.taken <+: w.sent
  queue : w.isOver = false → w.taken ++ o.queue = w.sent
  errors : ∀ c ∈ w.sent, c.records? = none → w.isLive = false

namespace Observer.Follows

variable {o : Observer} {m : Model} {id : Nat} {w : Watch}

theorem start (m : Model) (id : Nat) (records : List Record) :
    (Observer.start id m records true).Follows m id { sent := [.initial records] } where
  model := rfl
  subscription := rfl
  reachable := rfl
  subscribed := rfl
  finished := rfl
  invalidated := fun h => nomatch h
  taken := List.nil_prefix
  queue := fun _ => rfl
  errors := fun c hc hnone => by
    obtain rfl := List.mem_singleton.mp hc
    cases hnone

theorem send (h : o.Follows m id w) (c : Change) :
    (if o.isSubscribed then o.send c else o).Follows m id (w.send (some c)) := by
  cases hlive : w.isLive with
  | false => simpa [Watch.send, h.subscribed, hlive] using h
  | true =>
    have hvalid : o.isInvalidated ≠ true := fun hi => by simp [h.invalidated hi] at hlive
    simp only [h.subscribed, hlive, if_true, Watch.send]
    refine ⟨h.model, h.subscription, h.reachable, ?_, h.finished, fun hi => absurd hi hvalid,
      h.taken.trans (List.prefix_append ..), fun hover => ?_, fun c' hc' hnone => ?_⟩
    · simp [Observer.send, h.reachable]
    · simp [Observer.send, h.reachable, ← h.queue hover]
    · rcases List.mem_append.mp hc' with hc' | hc'
      · rw [h.errors c' hc' hnone] at hlive
        cases hlive
      · rw [← List.mem_singleton.mp hc', hnone]
        rfl

/-- Once its subscription has ended nothing is sent to an observer. -/
theorem unsubscribe (h : o.Follows m id w) :
    Follows { o with isSubscribed := false } m id { w with isLive := false } :=
  ⟨h.model, h.subscription, h.reachable, rfl, h.finished, fun _ => rfl, h.taken, h.queue,
    fun _ _ _ => rfl⟩

theorem invalidate (h : o.Follows m id w) :
    o.invalidate.Follows m id { w with isLive := false } := by
  unfold Observer.invalidate
  split
  · next hi =>
    have hlive := h.invalidated hi
    exact ⟨h.model, h.subscription, h.reachable, h.subscribed.trans hlive, h.finished,
      fun _ => rfl, h.taken, h.queue, fun _ _ _ => rfl⟩
  · exact ⟨h.model, h.subscription, h.reachable, rfl, h.finished, fun _ => rfl, h.taken, h.queue,
      fun _ _ _ => rfl⟩

theorem finish (h : o.Follows m id w) (hlive : w.isLive = false) :
    o.finish.Follows m id { w with isOver := true } :=
  ⟨h.invalidate.model, h.invalidate.subscription, h.invalidate.reachable,
    h.invalidate.subscribed.trans hlive.symm, rfl, fun _ => hlive, h.taken,
    fun hover => (nomatch hover), fun _ _ _ => hlive⟩

theorem cancel (h : o.Follows m id w) :
    o.cancel.Follows m id { w with isLive := false, isOver := true } :=
  ⟨h.invalidate.model, h.invalidate.subscription, h.invalidate.reachable, h.invalidate.subscribed,
    rfl, fun _ => rfl, h.taken, fun hover => (nomatch hover), fun _ _ _ => rfl⟩

/-- What an observer receives is the next of what it was sent. -/
theorem receive_eq (h : o.Follows m id w) : o.receive.1 = w.next := by
  unfold Observer.receive Watch.next
  rw [h.finished]
  cases hover : w.isOver with
  | true => rfl
  | false =>
    have hnext : w.sent[w.taken.length]? = o.queue[0]? := by
      rw [← h.queue hover, List.getElem?_append_right (Nat.le_refl _), Nat.sub_self]
    rw [hnext]
    cases hqueue : o.queue with
    | cons c rest => rfl
    | nil =>
      simp only [h.reachable, h.subscribed, Bool.true_and]
      cases w.isLive <;> rfl

theorem receive (h : o.Follows m id w) : o.receive.2.Follows m id (w.receive o.receive.1) := by
  cases hover : w.isOver with
  | true =>
    have hfinished : o.isFinished = true := h.finished.trans hover
    have hsame : { w with isOver := true } = w := by rw [← hover]
    simpa only [Observer.receive, hfinished, if_true, Watch.receive, hsame] using h
  | false =>
    have hfinished : o.isFinished = false := h.finished.trans hover
    have hsent := h.queue hover
    unfold Observer.receive
    rw [if_neg (by simp [hfinished])]
    cases hqueue : o.queue with
    | cons c rest =>
      rw [hqueue, List.append_cons] at hsent
      have htaken : w.taken ++ [c] <+: w.sent := ⟨rest, hsent⟩
      have hrest : Follows { o with queue := rest } m id { w with taken := w.taken ++ [c] } :=
        ⟨h.model, h.subscription, h.reachable, h.subscribed, h.finished, h.invalidated, htaken,
          fun _ => hsent, h.errors⟩
      simp only [Watch.receive, hover, Bool.false_or]
      cases hc : c.records? with
      | some records =>
        simp only [Option.isSome_some, if_true, Option.isNone_some, ← hover]
        exact hrest
      | none =>
        -- after an error nothing is sent, so that nothing is lost by finishing
        have hmem : c ∈ w.sent :=
          htaken.subset (List.mem_append_right _ (List.mem_singleton_self c))
        have hlive : w.isLive = false := h.errors c hmem hc
        simp only [Option.isSome_none, Bool.false_eq_true, if_false, Option.isNone_none]
        exact hrest.finish hlive
    | nil =>
      simp only [h.reachable, h.subscribed, Bool.true_and]
      cases hlive : w.isLive with
      | true => simpa only [if_true, Watch.receive] using h
      | false =>
        simp only [Bool.false_eq_true, if_false, Watch.receive]
        exact h.finish hlive

end Observer.Follows

namespace Store

variable {models : Model → Prop} {s : Store} {m : Model} {id : Nat} {o : Observer} {w : Watch}

/-- An observer follows every event. -/
theorem follows_step (hmodels : ∀ m, models m → m.Sound) (hs : View.Sound models s.tables.table)
    {e : Event} (he : e.Typed models) (ho : s.observer? id = some o) (h : o.Follows m id w) :
    (e.onObserver s o).Follows m id (w.step m id s e) := by
  have hquiet (hwrite : ∀ c body, e ≠ .write c body) : s.news m (s.step e) = none :=
    news_of_eq hmodels hs (tables_step s hwrite)
  cases e with
  | write c body =>
    have hs' := step_sound hmodels hs he
    have htold := told_eq (hs o.model.typeName).ordered (hs' o.model.typeName).ordered
    rw [show Event.onObserver s (.write c body) o = _ from htold, h.model]
    simp only [Watch.step, Event.ends, Event.cancels, Bool.not_false, Bool.and_true, Bool.or_false]
    cases s.news m (s.step (.write c body)) with
    | none => exact h
    | some c => exact h.send c
  | observe m' isReachable =>
    simpa [Event.onObserver, Watch.step, hquiet, Watch.send, Event.ends, Event.cancels] using h
  | receive j =>
    simp only [Event.onObserver, h.subscription, Watch.step, hquiet (fun _ _ => nofun), Watch.send,
      Event.ends, Event.cancels, Bool.not_false, Bool.and_true, Bool.or_false]
    by_cases hj : id = j
    · simp only [hj.symm, if_true, receive_eq ho]
      exact h.receive
    · simp only [hj, Ne.symm hj, if_false]
      exact h
  | invalidate j =>
    simp only [Event.onObserver, h.subscription, Watch.step, hquiet (fun _ _ => nofun), Watch.send,
      Event.ends, Event.cancels, Bool.or_false]
    by_cases hj : id = j
    · simpa [hj] using h.invalidate
    · simpa [hj, beq_false_of_ne (Ne.symm hj)] using h
  | close ids =>
    simp only [Event.onObserver, h.subscription, Watch.step, hquiet (fun _ _ => nofun), Watch.send,
      Event.ends, Event.cancels, Bool.or_false]
    by_cases hj : id ∈ ids
    · simpa [hj] using h.invalidate
    · simpa [hj] using h
  | cancel j =>
    simp only [Event.onObserver, h.subscription, Watch.step, hquiet (fun _ _ => nofun), Watch.send,
      Event.ends, Event.cancels]
    by_cases hj : id = j
    · simpa [hj] using h.cancel
    · simpa [hj, beq_false_of_ne (Ne.symm hj)] using h
  | discard =>
    simpa [Event.onObserver, Watch.step, hquiet, Watch.send, Event.ends, Event.cancels]
      using h.unsubscribe

/-- An observer follows its watch through whatever happens to the store. -/
theorem follows_after (hmodels : ∀ m, models m → m.Sound) :
    ∀ (events : List Event) (s : Store) (o : Observer) (w : Watch),
      (∀ e ∈ events, e.Typed models) → View.Sound models s.tables.table →
      s.observer? id = some o → o.Follows m id w →
      ∃ o', (s.after events).observer? id = some o' ∧ o'.Follows m id (Watch.after m id s w events)
  | [], _, o, _, _, _, ho, h => ⟨o, ho, h⟩
  | e :: rest, s, o, w, hevents, hs, ho, h => by
    have he := hevents e (List.mem_cons_self ..)
    have hs' := step_sound hmodels hs he
    exact follows_after hmodels rest (s.step e) _ _
      (fun e he => hevents e (List.mem_cons_of_mem _ he)) hs'
      (observer_step hmodels hs he ho) (follows_step hmodels hs he ho h)

end Store

/-- An observer to which nothing arrives. -/
structure Observer.Unreached (o : Observer) : Prop where
  unreachable : o.isReachable = false
  queue : o.queue = []

namespace Observer.Unreached

variable {o : Observer}

theorem send (h : o.Unreached) (c : Change) : (o.send c).Unreached :=
  ⟨h.unreachable, by simp [Observer.send, h.unreachable, h.queue]⟩

theorem told (h : o.Unreached) (old t : Table) : (o.told old t).Unreached := by
  unfold Observer.told Observer.notify
  split
  · exact h
  · split
    · exact h.send _
    · exact h

theorem invalidate (h : o.Unreached) : o.invalidate.Unreached := by
  unfold Observer.invalidate
  split
  · exact h
  · exact ⟨h.unreachable, h.queue⟩

theorem finish (h : o.Unreached) : o.finish.Unreached :=
  ⟨h.invalidate.unreachable, h.invalidate.queue⟩

theorem receive (h : o.Unreached) : o.receive.1 = .ended ∧ o.receive.2.Unreached := by
  unfold Observer.receive
  split
  · exact ⟨rfl, h⟩
  · simp only [h.queue, h.unreachable, Bool.false_and, Bool.false_eq_true, if_false, true_and]
    exact h.finish

/-- Nothing that happens reaches an observer whose relay is gone. -/
theorem onObserver (h : o.Unreached) (s : Store) (e : Store.Event) :
    (e.onObserver s o).Unreached := by
  cases e with
  | write c body => exact h.told _ _
  | observe m isReachable => exact h
  | receive j =>
    simp only [Store.Event.onObserver]
    split
    · exact h.receive.2
    · exact h
  | invalidate j =>
    simp only [Store.Event.onObserver]
    split
    · exact h.invalidate
    · exact h
  | close ids =>
    simp only [Store.Event.onObserver]
    split
    · exact h.invalidate
    · exact h
  | cancel j =>
    simp only [Store.Event.onObserver]
    split
    · exact ⟨h.finish.unreachable, rfl⟩
    · exact h
  | discard => exact ⟨h.unreachable, h.queue⟩

end Observer.Unreached

namespace Store

variable {models : Model → Prop} {m : Model} {id : Nat}

/-- An observer whose relay is gone stays unreached. -/
theorem unreached_after (hmodels : ∀ m, models m → m.Sound) :
    ∀ (events : List Event) (s : Store) (o : Observer), (∀ e ∈ events, e.Typed models) →
      View.Sound models s.tables.table → s.observer? id = some o → o.Unreached →
      ∃ o', (s.after events).observer? id = some o' ∧ o'.Unreached
  | [], _, o, _, _, ho, h => ⟨o, ho, h⟩
  | e :: rest, s, o, hevents, hs, ho, h => by
    have he := hevents e (List.mem_cons_self ..)
    have hs' := step_sound hmodels hs he
    exact unreached_after hmodels rest (s.step e) _
      (fun e he => hevents e (List.mem_cons_of_mem _ he)) hs' (observer_step hmodels hs he ho)
      (h.onObserver s e)

/-- What was started is an observer of the records that there were, under a new number. -/
theorem observe_eq_ok {s s' : Store} {isReachable : Bool} (hs : s.Numbered)
    (h : s.observe m isReachable = (.ok id, s')) :
    ∃ records, s.objects m = .ok records ∧ s'.tables = s.tables ∧
      s'.observer? id = some (.start id m records isReachable) := by
  unfold observe at h
  split at h
  · cases h
  · next records hrecords =>
    cases h
    exact ⟨records, hrecords, rfl, observer_append hs _ rfl⟩

/-- A store in which it is true of an observer what was sent to it and what it has taken. -/
structure Delivers (s : Store) (id : Nat) (w : Watch) : Prop where
  taken : w.taken <+: w.sent
  received : (s.receive id).1 = w.next
  subscribed : id ∈ s.subscriptions ↔ w.isLive = true

/-- From the start of an observation on, what was sent is what it was to be told, in order. -/
theorem delivers_of_observe {s s' : Store} (hs : View.Sound Model.Sound s.tables.table)
    (hnumbered : s.Numbered) (h : s.observe m true = (.ok id, s')) :
    ∃ records, s.objects m = .ok records ∧ ∀ later : List Event,
      (∀ e ∈ later, e.Typed Model.Sound) →
        (s'.after later).Delivers id
          (Watch.after m id s' { sent := [.initial records] } later) := by
  obtain ⟨records, hrecords, htables, ho⟩ := observe_eq_ok hnumbered h
  have hs' : View.Sound Model.Sound s'.tables.table := htables ▸ hs
  have hnumbered' : s'.Numbered := by
    have hobserve : (s.observe m true).2.Numbered := numbered_observe hnumbered
    rwa [h] at hobserve
  refine ⟨records, hrecords, fun later hlater => ?_⟩
  obtain ⟨o', ho', hfollows⟩ := follows_after (fun _ h => h) later s' _ _ hlater hs' ho
    (Observer.Follows.start m id records)
  refine ⟨hfollows.taken, (receive_eq ho').trans hfollows.receive_eq, ?_⟩
  rw [← hfollows.subscribed]
  exact mem_subscriptions_iff (numbered_after (fun _ h => h) later s' hlater hs' hnumbered') ho'

/-- An observer that can be reached is sent the records there are and then what is new, until its
subscription ends, and takes what it was sent in order. Once that is over it receives the end
whenever it asks, and so does from the start an observer that cannot be reached. -/
theorem delivered_exactly (identifier : String) {before : List Event}
    (hbefore : ∀ e ∈ before, e.Typed Model.Sound) (m : Model) :
    (∀ id s', (after { identifier := identifier } before).observe m true = (.ok id, s') →
      ∃ records, (after { identifier := identifier } before).objects m = .ok records ∧
        ∀ later : List Event, (∀ e ∈ later, e.Typed Model.Sound) →
          (s'.after later).Delivers id
            (Watch.after m id s' { sent := [.initial records] } later) ∧
          ∀ more : List Event, (∀ e ∈ more, e.Typed Model.Sound) →
            (Watch.after m id s' { sent := [.initial records] } later).isOver = true →
              ((s'.after (later ++ more)).receive id).1 = .ended) ∧
    ∀ id s', (after { identifier := identifier } before).observe m false = (.ok id, s') →
      ∀ later : List Event, (∀ e ∈ later, e.Typed Model.Sound) →
        ((s'.after later).receive id).1 = .ended := by
  have hsound := after_sound (fun _ h => h) hbefore (sound_empty _ identifier)
  have hnumbered := numbered_after (fun _ h => h) before { identifier := identifier } hbefore
    (sound_empty _ identifier) rfl
  generalize after { identifier := identifier } before = s at hsound hnumbered ⊢
  refine ⟨fun id s' h => ?_, fun id s' h later hlater => ?_⟩
  · obtain ⟨records, hrecords, hdelivers⟩ := delivers_of_observe hsound hnumbered h
    refine ⟨records, hrecords, fun later hlater => ⟨hdelivers later hlater, ?_⟩⟩
    intro more hmore hover
    have hall : ∀ e ∈ later ++ more, e.Typed Model.Sound := fun e he =>
      (List.mem_append.mp he).elim (hlater e) (hmore e)
    rw [(hdelivers (later ++ more) hall).received, Watch.after_append, Watch.next,
      if_pos (Watch.isOver_after more hover)]
  · obtain ⟨records, -, htables, ho⟩ := observe_eq_ok hnumbered h
    have hs' : View.Sound Model.Sound s'.tables.table := htables ▸ hsound
    obtain ⟨o', ho', hunreached⟩ :=
      unreached_after (fun _ h => h) later s' _ hlater hs' ho ⟨rfl, rfl⟩
    exact (receive_eq ho').trans hunreached.receive.1

def slotHistory : List Event :=
  [.write (.volatile "db") (.call (.create .slot [("key", .integer 1), ("tags", .array [])])
    fun _ => .finish (.ok ()))]

theorem typed_slotHistory : ∀ e ∈ slotHistory, e.Typed Model.Sound := by
  intro e he
  obtain rfl := List.mem_singleton.mp he
  exact ⟨⟨Model.sound_of_ofName "Slot" rfl, by decide, rfl, trivial, trivial⟩,
    fun _ _ => trivial⟩

def slotReceipts : List Event := [
  .receive 1,
  .write (.volatile "db") (.call (.create .slot [("key", .integer 2), ("tags", .array [])])
    fun _ => .finish (.ok ())),
  .receive 1]

theorem typed_slotReceipts : ∀ e ∈ slotReceipts, e.Typed Model.Sound := by
  intro e he
  simp only [slotReceipts, List.mem_cons, List.not_mem_nil, or_false] at he
  rcases he with rfl | rfl | rfl
  · trivial
  · exact ⟨⟨Model.sound_of_ofName "Slot" rfl, by decide, rfl, trivial, trivial⟩,
      fun _ _ => trivial⟩
  · trivial

/-- An observer of slots takes the one there is, and then an update by which another was
inserted. -/
theorem delivered_exactly_slotHistory :
    (∀ e ∈ slotHistory, e.Typed Model.Sound) ∧ (∀ e ∈ slotReceipts, e.Typed Model.Sound) ∧
    ∃ s' records, (after { identifier := "db" } slotHistory).observe .slot true = (.ok 1, s') ∧
      (s'.after slotReceipts).Delivers 1
        (Watch.after .slot 1 s' { sent := [.initial records] } slotReceipts) ∧
      ∃ newer, (Watch.after .slot 1 s' { sent := [.initial records] } slotReceipts).taken =
        [.initial records, .update newer { insertions := [1] }] := by
  obtain ⟨records, hrecords, hdelivers⟩ :=
    (delivered_exactly "db" typed_slotHistory .slot).1 1 _ rfl
  cases hrecords
  exact ⟨typed_slotHistory, typed_slotReceipts, _, _, rfl, (hdelivers _ typed_slotReceipts).1,
    _, rfl⟩

/-- An observer that cannot be reached is not given the records there are. -/
theorem not_delivered_of_unreachable :
    ¬ ∀ (m : Model) (isReachable : Bool) (before : List Event) (id : Nat) (s' : Store)
        (records : List Record), (∀ e ∈ before, e.Typed Model.Sound) →
        (after { identifier := "db" } before).observe m isReachable = (.ok id, s') →
        (after { identifier := "db" } before).objects m = .ok records →
        (s'.receive id).1 = .change (.initial records) := by
  intro h
  have hchange := h .account false [] 1 _ [] (fun _ he => absurd he List.not_mem_nil) rfl rfl
  have hended : ((({ identifier := "db" } : Store).observe .account false).2.receive 1).1 =
      .ended := rfl
  exact nomatch hended.symm.trans hchange

end Store

end RecordStore
