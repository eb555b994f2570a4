import RecordStore.Proofs.Session.Held

/-!
The course of a session. Requests run to completion one after the other lead from one session to the
next, and every session on the way is in order and has nothing left to drop. What was started in one
of them is known to have been started in all that come after.
-/
namespace RecordStore

/-- What a process can become in the course of a session. -/
abbrev Process.Becomes (p p' : Process) : Prop := p.Later (fun _ => False) p'

def Answer.IsFailure : Answer → Prop
  | .failed _ | .failedWrite _ _ | .misuse _ => True
  | _ => False

def Request.through? (isGenerated : Bool) :
    Request → Option (String × (Model → Except Answer Work))
  | .create on arguments => if isGenerated then some (on, Session.createWork arguments) else none
  | .update on object changes =>
    if isGenerated then some (on, Session.updateWork object changes false) else none
  | .delete on object => if isGenerated then some (on, Session.deleteWork object) else none
  | .list on _ as => some (on, fun _ => .ok (.list as))
  | .observe on _ as isReachable => some (on, fun _ => .ok (.observe as isReachable))
  | .write on steps => if isGenerated then none else some (on, fun _ => .ok (.write steps))
  | _ => none

namespace Session

variable {bound n place id : Nat} {sess sess' : Session} {requests later : List Request}
  {r : Request} {on name : String} {isGenerated : Bool} {a : Actor} {o : Observer}
  {work : Model → Except Answer Work}

def next (bound : Nat) (sess : Session) (r : Request) : Session := ((runOuter bound r).run sess).2

/-- The session after some requests. -/
def after (bound : Nat) (sess : Session) (requests : List Request) : Session :=
  requests.foldl (next bound) sess

/-- Requests that are each run to completion before the next. -/
def AllComplete (requests : List Request) : Prop := ∀ r ∈ requests, r.isComplete = true

theorem after_append (bound : Nat) (sess : Session) (requests later : List Request) :
    sess.after bound (requests ++ later) = (sess.after bound requests).after bound later :=
  List.foldl_append ..

theorem orderly_empty : Orderly {} :=
  ⟨rfl, Process.orderly_initial, fun _ h => absurd h List.not_mem_nil,
    fun _ h => absurd h List.not_mem_nil⟩

theorem orderly_next (bound : Nat) (hsess : sess.Orderly) (hr : r.isComplete = true) :
    (sess.next (bound + 1) r).Orderly ∧
      sess.process.Becomes (sess.next (bound + 1) r).process := by
  obtain ⟨sess', heffect, hnext⟩ := effect_runOuter bound hsess hr
  obtain ⟨hsess', hleads⟩ := heffect.orderly hsess
  obtain ⟨hsettled, hlater⟩ := orderly_settle hsess'
  rw [next, hnext]
  exact ⟨hsettled, (hleads.mono fun _ => False.elim).trans (hlater.mono fun _ => False.elim)⟩

/-- Requests that wait for nothing keep a session orderly. -/
theorem orderly_after (bound : Nat) (hsess : sess.Orderly) (hrequests : AllComplete requests) :
    (sess.after (bound + 1) requests).Orderly ∧
      sess.process.Becomes (sess.after (bound + 1) requests).process := by
  induction requests generalizing sess with
  | nil => exact ⟨hsess, Process.later_refl hsess.process⟩
  | cons r rest ih =>
    obtain ⟨hnext, hbecomes⟩ := orderly_next bound hsess
      (hrequests r List.mem_cons_self)
    obtain ⟨hafter, hbecomes'⟩ := ih hnext fun r' hr' => hrequests r' (List.mem_cons_of_mem r hr')
    exact ⟨hafter, hbecomes.trans hbecomes'⟩

theorem isSettled_next (bound : Nat) (sess : Session) (r : Request) :
    (sess.next (bound + 1) r).IsSettled := by
  rw [next, runOuter_succ]
  rcases outcome (runWith (run bound) r) sess with ⟨_ | _, sess'⟩
  · exact sess'.isSettled_settle
  · exact sess'.isSettled_settle

theorem isSettled_after (hsess : sess.IsSettled) (requests : List Request) :
    (sess.after (bound + 1) requests).IsSettled :=
  List.foldlRecOn requests _ hsess fun sess _ r _ => isSettled_next bound sess r

def HasStarted (bound : Nat) (requests : List Request) (n place id : Nat) : Prop :=
  ∃ (earlier : List Request) (name : String), earlier <+: requests ∧
    (after bound {} earlier).handle? name = some (.observation place id (some n))

theorem HasStarted.started (h : HasStarted (bound + 1) requests n place id)
    (hrequests : AllComplete requests) :
    (after (bound + 1) {} requests).process.Started n place id := by
  obtain ⟨earlier, name, ⟨rest, rfl⟩, hh⟩ := h
  have hearlier : AllComplete earlier := fun r hr => hrequests r (List.mem_append_left rest hr)
  have hrest : AllComplete rest := fun r hr => hrequests r (List.mem_append_right earlier hr)
  obtain ⟨hsess, -⟩ := orderly_after bound orderly_empty hearlier
  obtain ⟨-, hbecomes⟩ := orderly_after bound hsess hrest
  rw [after_append]
  exact hbecomes.started n place id ((hsess.isProper hh).2 n rfl).2

/-- An actor that is closed has ended what it started: the token, the subscription, and the stream
once it has yielded what is left. -/
theorem ended_of_closed (hsess : sess.Orderly) (hstarted : sess.process.Started n place id)
    (ha : sess.process.actors[n]? = some a) (hclosed : a.isClosed = true) :
    ∃ s o, sess.process.store? place = some s ∧ s.observer? id = some o ∧
      o.isInvalidated = true ∧ o.isSubscribed = false ∧ id ∉ s.subscriptions := by
  obtain ⟨a', o, ha', -, ho, hheld⟩ := hstarted
  obtain rfl := Option.some.inj (ha.symm.trans ha')
  have hinvalidated : o.isInvalidated = true := by
    rcases hheld with hinvalidated | ⟨-, hopen⟩
    · exact hinvalidated
    · exact nomatch hclosed.symm.trans hopen
  obtain ⟨s, hs, ho⟩ := Process.store_of_observer ho
  have hregular := Process.regular_of_store hsess.process hs
  have hunsubscribed := hregular.observers o (List.mem_of_find?_eq_some ho) hinvalidated
  refine ⟨s, o, hs, ho, hinvalidated, hunsubscribed, fun hid => ?_⟩
  exact nomatch hunsubscribed.symm.trans ((Store.mem_subscriptions_iff hregular.numbered ho).mp hid)

theorem runOuter_of_outcome {answer : Answer}
    (h : outcome (runWith (run bound) r) sess = (.ok answer, sess')) :
    (runOuter (bound + 1) r).run sess = (answer, sess'.settle) := by
  rw [runOuter_succ, h]

/-- What is answered to a request through a closed actor: what is wrong with its arguments, or that
the actor is closed. -/
def refusal (m : Model) : Except Answer Work → Answer
  | .error answer => answer
  | .ok (.write _) => .failedWrite (.closed m.typeName) []
  | .ok _ => .failed (.closed m.typeName)

/-- A request through an actor is an operation of it. -/
theorem outcome_runWith_through (nested : Request → Run Answer)
    (hr : r.through? isGenerated = some (on, work))
    (hh : sess.handle? on = some (.actor n isGenerated)) :
    outcome (runWith nested r) sess =
      outcome (actorOperation n work >>= conclude nested r) sess := by
  have hprepare : runWith nested r = prepare r >>= conclude nested r ∧
      outcome (prepare r) sess = outcome (actorOperation n work) sess := by
    cases r with
    | create | update | delete =>
      cases isGenerated <;> cases hr
      exact ⟨rfl, by simp only [prepare, onGenerated, Outcome.bind_eq, Outcome.get_eq, hh]⟩
    | list | observe =>
      cases hr
      exact ⟨rfl, by simp only [prepare, Outcome.bind_eq, Outcome.get_eq, hh]⟩
    | write =>
      cases isGenerated <;> cases hr
      exact ⟨rfl, by simp only [prepare, Outcome.bind_eq, Outcome.get_eq, hh]⟩
    | _ => cases hr
  rw [hprepare.1, Outcome.bind_eq, Outcome.bind_eq, hprepare.2]

def IsPlain : Except Answer Work → Prop
  | .error answer => answer.IsFailure
  | .ok (.update _ _ (some _)) => False
  | .ok _ => True

theorem isPlain_argument {α : Type} {x : Except CodecError α} {f : α → Except Answer Work}
    (hf : ∀ v, IsPlain (f v)) : IsPlain (argument x >>= f) := by
  cases x with
  | error e => trivial
  | ok v => exact hf v

theorem isPlain_mapError {α : Type} {x : Except StoreError α} {f : α → Except Answer Work}
    (hf : ∀ v, IsPlain (f v)) : IsPlain (x.mapError Answer.failed >>= f) := by
  cases x with
  | error e => trivial
  | ok v => exact hf v

/-- A request through a handle on an actor fails, or leaves the copy of the caller alone. -/
theorem isPlain_through (hr : r.through? isGenerated = some (on, work)) (m : Model) :
    IsPlain (work m) := by
  cases r with
  | create on' arguments =>
    cases isGenerated <;> cases hr
    exact isPlain_argument fun _ => isPlain_mapError fun _ => trivial
  | update on' object changes =>
    cases isGenerated <;> cases hr
    exact isPlain_argument fun _ => isPlain_mapError fun _ => isPlain_argument fun _ => trivial
  | delete on' object =>
    cases isGenerated <;> cases hr
    exact isPlain_argument fun _ => isPlain_mapError fun _ => trivial
  | list | observe =>
    cases hr
    trivial
  | write =>
    cases isGenerated <;> cases hr
    trivial
  | _ => cases hr

theorem isFailure_refusal {w : Except Answer Work} (h : IsPlain w) (m : Model) :
    (refusal m w).IsFailure := by
  cases w with
  | error answer => exact h
  | ok w => cases w <;> trivial

/-- An operation of a closed actor fails as the request would be refused. -/
theorem failure_eq_refusal {op : StoreOperation} (h : IsPlain (.ok op.work)) (m : Model) :
    op.failure (.closed m.typeName) = refusal m (.ok op.work) := by
  unfold StoreOperation.failure refusal
  cases hwork : op.work with
  | update i changes member =>
    rw [hwork] at h
    cases member with
    | some member => exact h.elim
    | none => rfl
  | _ => rfl

/-- A request through a closed actor fails and changes nothing. -/
theorem runOuter_of_isClosed (hsess : sess.Orderly) (hsettled : sess.IsSettled)
    (hh : sess.handle? on = some (.actor n isGenerated)) (ha : sess.process.actors[n]? = some a)
    (hclosed : a.isClosed = true) (hr : r.through? isGenerated = some (on, work)) :
    ∃ ticket, (runOuter (bound + 1) r).run sess =
      (refusal a.model (work a.model), { sess with nextTicket := ticket }) := by
  have hsettle (ticket : Nat) :
      settle { sess with nextTicket := ticket } = { sess with nextTicket := ticket } :=
    congrArg (fun p => { sess with process := p, nextTicket := ticket })
      (congrArg Session.process hsettled)
  have hrun := outcome_runWith_through (run bound) hr hh
  have hplain := isPlain_through hr a.model
  rw [Outcome.bind_eq, outcome_actorOperation ha] at hrun
  cases hwork : work a.model with
  | error answer =>
    simp only [hwork] at hrun
    exact ⟨sess.nextTicket, (runOuter_of_outcome hrun).trans (congrArg _ (hsettle _))⟩
  | ok w =>
    simp only [hwork] at hrun hplain
    have hticket : Move sess { sess with nextTicket := sess.nextTicket + 1 } := .ticket
    rw [outcome_conclude (outcome_advance_closed (hticket.orderly hsess).1 rfl rfl ha hclosed),
      failure_eq_refusal hplain] at hrun
    exact ⟨_, (runOuter_of_outcome hrun).trans (congrArg _ (hsettle _))⟩

/-- Closing an actor. -/
theorem runOuter_close (bound : Nat) (hh : sess.handle? on = some (.actor n isGenerated))
    (ha : sess.process.actors[n]? = some a) :
    (runOuter (bound + 1) (.close on)).run sess =
      (.state true, settle { sess with process := sess.process.close n }) := by
  refine runOuter_of_outcome ?_
  rw [runWith_eq _ rfl]
  show outcome (runImmediate (.close on)) sess = _
  simp only [runImmediate, withActorHandle, withHandle, Outcome.bind_eq, Outcome.get_eq, hh, ha,
    ← bind_pure_comp, outcome_updateProcess, Outcome.pure_eq, Option.getD_some]

theorem isClosed_close {p : Process} (ha : p.actors[n]? = some a) :
    ∃ a', (p.close n).actors[n]? = some a' ∧ a'.isClosed = true := by
  unfold Process.close
  simp only [ha]
  split
  · next hclosed => exact ⟨a, ha, hclosed⟩
  · rw [Process.actors_invalidateAll]
    exact ⟨_, (List.getElem?_modify_eq ..).trans (congrArg (Option.map _) ha), rfl⟩

theorem close_of_isClosed {p : Process} (ha : p.actors[n]? = some a) (hclosed : a.isClosed = true) :
    p.close n = p := by
  unfold Process.close
  simp only [ha, hclosed, if_true]

/-- What is received on an observation is the next change of its observer. -/
theorem runOuter_receive (bound : Nat) {owner : Option Nat}
    (hh : sess.handle? on = some (.observation place id owner))
    (ho : sess.process.observer? place id = some o) :
    ((runOuter (bound + 1) (.receive on)).run sess).1 = .received o.receive.1 := by
  obtain ⟨s, hs, ho⟩ := Process.store_of_observer ho
  have hrun : outcome (runWith (run bound) (.receive on)) sess = (.ok (.received (s.receive id).1),
      { sess with process := sess.process.setStore place (s.receive id).2 }) := by
    rw [runWith_eq _ rfl]
    show outcome (runImmediate (.receive on)) sess = _
    simp only [runImmediate, withHandle, Outcome.bind_eq, Outcome.get_eq, hh, hs,
      outcome_updateProcess, Outcome.pure_eq, Option.getD_some]
  rw [runOuter_of_outcome hrun, Store.receive_eq ho]

/-- Dropping a handle. -/
theorem next_drop (bound : Nat) (sess : Session) (name : String) :
    sess.next (bound + 1) (.drop name) = (sess.unbound name).settle := by
  have hrun : outcome (runWith (run bound) (.drop name)) sess =
      (.ok (.dropped (sess.handle? name).isSome), sess.unbound name) := by
    rw [runWith_eq _ rfl]
    exact outcome_drop name sess
  rw [next, runOuter_of_outcome hrun]

theorem handle_unbound {name' : String} (hne : name ≠ name') :
    (sess.unbound name').handle? name = sess.handle? name := by
  show List.lookup name (sess.handles.filter (·.1 != name')) = List.lookup name sess.handles
  rw [lookup_filter, if_neg hne]

theorem handle_unbound_self (sess : Session) (name : String) :
    (sess.unbound name).handle? name = none := by
  show List.lookup name (sess.handles.filter (·.1 != name)) = none
  rw [lookup_filter, if_pos rfl]

theorem handle_bound (sess : Session) (name : String) (h : Handle) :
    (sess.bound name h).handle? name = some h := by
  have hnone : (sess.handles.filter (·.1 != name)).lookup name = none :=
    sess.handle_unbound_self name
  show List.lookup name (sess.handles.filter (·.1 != name) ++ [(name, h)]) = some h
  rw [List.lookup_append, hnone]
  simp

/-- An observer that was just started has been sent the records that there are. -/
theorem serves_observing (hsess : sess.Orderly) {m : Model} {isReachable : Bool} {s s' : Store}
    {actor : Option Nat} (as : String) (hs : sess.process.store? place = some s)
    (hobserve : s.observe m isReachable = (.ok id, s'))
    (hactor : ∀ n, actor = some n → ∃ a, sess.process.actors[n]? = some a ∧ a.store = place ∧
      a.isAlive = true ∧ a.isClosed = false) :
    ∃ records t, (sess.observing place s' id actor as).process.Serves place id t
      (.start id m records isReachable) := by
  obtain ⟨hnone, records, -, ho⟩ := observer_of_observe hsess.process hs hobserve
  obtain ⟨t, hserves⟩ := Process.serves_of_observer ho
  have hnoted : (noted actor id (sess.process.setStore place s')).Serves place id t
      (.start id m records isReachable) := by
    cases actor with
    | none => exact hserves
    | some n => exact hserves
  have hsess' := hsess.of_leads (leads_noted hsess.process hs hobserve hactor).1
  refine ⟨records, t, serves_released hsess' hnoted fun old hold hsame => ?_⟩
  -- the observation that had the name is an older one
  have hproper : old.IsProper sess.process := hsess.isProper hold
  cases old with
  | observation place' id' owner' =>
    cases hsame
    obtain ⟨o', ho'⟩ := hproper.1
    exact nomatch hnone.symm.trans ho'
  | _ => cases hsame

/-- An operation that is answered with a subscription has started an observer and named it. -/
theorem observing_of_answer {nested : Request → Run Answer} {op : StoreOperation}
    (hsess : sess.Orderly) (hop : Issued op sess.process) {as : String} {isReachable : Bool}
    (hwork : op.work = .observe as isReachable)
    (hrun : outcome (conclude nested r (.operation op)) sess = (.ok (.subscription id), sess')) :
    sess'.handle? as = some (.observation op.store id op.actor) ∧
      ∃ records t, sess'.process.Serves op.store id t
        (.start id op.model records isReachable) := by
  have hopen := open_of_conclude hsess hop hrun fun e => by simp [StoreOperation.failure, hwork]
  have hactor : ∀ n, op.actor = some n → ∃ a, sess.process.actors[n]? = some a ∧
      a.store = op.store ∧ a.isAlive = true ∧ a.isClosed = false := by
    intro n hn
    obtain ⟨a, ha, hplace, halive⟩ := hop.actor n hn
    exact ⟨a, ha, hplace, halive, hopen n a hn ha⟩
  obtain ⟨s, hs⟩ := hop.store
  obtain ⟨result, sess₁, hresult, hadvance⟩ :=
    outcome_advance_observe nested hsess hop hwork hopen
  rw [outcome_performObserve, hs] at hresult
  rcases hobserve : s.observe op.model isReachable with ⟨e | id', s'⟩ <;>
    simp only [hobserve] at hresult <;> cases hresult <;>
    rw [outcome_conclude hadvance] at hrun <;> cases hrun
  exact ⟨handle_bound _ _ _, serves_observing hsess as hs hobserve hactor⟩

/-- If it is one of an actor, the observer is there once what nothing refers to is dropped. -/
theorem started_of_answer {nested : Request → Run Answer} {op : StoreOperation}
    (hsess : sess.Orderly) (hop : Issued op sess.process) (hactor : op.actor = some n) {as : String}
    {isReachable : Bool} (hwork : op.work = .observe as isReachable)
    (hrun : outcome (conclude nested r (.operation op)) sess = (.ok (.subscription id), sess')) :
    sess'.settle.handle? as = some (.observation op.store id (some n)) ∧
      ∃ records, sess'.settle.process.observer? op.store id =
        some (.start id op.model records isReachable) := by
  have hperformed := performed_conclude nested r hsess hop
  rw [hrun] at hperformed
  obtain ⟨hh, records, t, hserves⟩ := observing_of_answer hsess hop hwork hrun
  rw [hactor] at hh
  have hsess' := (hperformed.done.orderly hsess).1
  have hsettled := serves_settle hsess' hserves rfl (mem_of_handle hh)
  exact ⟨hh, records, hsettled.observer⟩

/-- An observation that was started through a handle on an actor. -/
theorem started_of_observe (hsess : sess.Orderly) {model : Option Model} {as : String}
    {isReachable : Bool} (hh : sess.handle? on = some (.actor n isGenerated))
    (hanswer : ((runOuter (bound + 1) (.observe on model as isReachable)).run sess).1 =
      .subscription id) :
    ∃ a records, sess.process.actors[n]? = some a ∧
      (sess.next (bound + 1) (.observe on model as isReachable)).handle? as =
        some (.observation a.store id (some n)) ∧
      (sess.next (bound + 1) (.observe on model as isReachable)).process.observer? a.store id =
        some (.start id a.model records isReachable) := by
  obtain ⟨a, ha, -⟩ := hsess.isProper hh
  have hthrough : Request.through? isGenerated (.observe on model as isReachable) =
      some (on, fun _ => .ok (.observe as isReachable)) := rfl
  have hissues : sess.Issues on _ := .actor (.observe as isReachable) hh ha
  rw [next]
  rw [runOuter_succ, outcome_runWith_through _ hthrough hh, Outcome.bind_eq,
    outcome_actorOperation ha] at hanswer ⊢
  split at hanswer
  · next answer sess' hrun =>
    obtain rfl : answer = .subscription id := hanswer
    obtain ⟨hh', records, ho⟩ := started_of_answer hsess.ticketed (hissues.issued hsess nofun) rfl
      rfl hrun
    exact ⟨a, records, ha, hh', ho⟩
  · cases hanswer

/-- An observation that was started by a model itself, through an actor opened for it. -/
theorem started_of_observeMember (hsess : sess.Orderly) {m : Model} {as : String}
    {isReachable : Bool}
    (hanswer : ((runOuter (bound + 1) (.observeMember m as isReachable)).run sess).1 =
      .subscription id) :
    ∃ n place records,
      (sess.next (bound + 1) (.observeMember m as isReachable)).handle? as =
        some (.observation place id (some n)) ∧
      (sess.next (bound + 1) (.observeMember m as isReachable)).process.observer? place id =
        some (.start id m records isReachable) := by
  have hopened : Move sess { sess with process := (sess.process.openActor m {}).2 } :=
    .openActor m {}
  have hderived : m.isDerived = true := by
    by_contra hderived
    have hrefused : outcome (runWith (run bound) (.observeMember m as isReachable)) sess =
        (.ok unavailable, sess) := by
      rw [runWith_eq _ rfl, prepare, memberOperation, if_neg hderived]
      rfl
    rw [runOuter_succ, hrefused] at hanswer
    cases hanswer
  have hmember : Request.member? (.observeMember m as isReachable) =
      some (m, .ok (.observe as isReachable)) := if_pos hderived
  rw [next]
  rw [runOuter_succ, outcome_runWith_member _ hmember] at hanswer ⊢
  split at hanswer
  · next answer sess' hrun =>
    obtain rfl : answer = .subscription id := hanswer
    have hcomplete : IsComplete (.ok (.observe as isReachable)) := by
      intro steps hwrite
      cases hwrite
    obtain ⟨hh, records, ho⟩ := started_of_answer (hopened.orderly hsess).1.ticketed
      (issued_memberOf hsess hcomplete) rfl rfl hrun
    exact ⟨_, _, records, hh, ho⟩
  · cases hanswer

end Session

end RecordStore
