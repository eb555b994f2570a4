import RecordStore.Proofs.Session.Complete
import RecordStore.Proofs.Session.Realization

/-!
What a request turns out to need before anything is done. One that asks something of a handle is
answered at once, or it is an operation: of the actor that the handle is on, or straight on its
store. A request of a model itself is an operation of an actor that is opened for it.
-/
namespace RecordStore

def Request.writer? : Request → Option String
  | .create on _ | .update on .. | .delete on _ | .write on _ => some on
  | _ => none

def Request.member? : Request → Option (Model × Except Answer Work)
  | .createMember m arguments => ofModel m (Session.createWork arguments m)
  | .updateMember m object changes => ofModel m (Session.updateWork object changes true m)
  | .deleteMember m object => ofModel m (Session.deleteWork object m)
  | .listMember m as => ofModel m (.ok (.list as))
  | .observeMember m as isReachable => ofModel m (.ok (.observe as isReachable))
  | _ => none
where
  ofModel (m : Model) (work : Except Answer Work) : Option (Model × Except Answer Work) :=
    if m.isDerived then some (m, work) else none

namespace Session

variable {sess : Session} {on : String} {r : Request} {nested : Request → Run Answer}
  {op : StoreOperation} {n : Nat} {a : Actor} {m : Model} {w : Work}
  {work : Model → Except Answer Work}

def IsComplete (work : Except Answer Work) : Prop :=
  ∀ steps, work = .ok (.write steps) → steps.all Step.isComplete = true

/-- A session in which one more ticket was given out. -/
abbrev ticketed (sess : Session) : Session := { sess with nextTicket := sess.nextTicket + 1 }

theorem Orderly.ticketed (hsess : sess.Orderly) : sess.ticketed.Orderly :=
  (Move.orderly .ticket hsess).1

theorem runWith_eq (nested : Request → Run Answer) (hr : r.isComplete = true) :
    runWith nested r = prepare r >>= conclude nested r := by
  cases r with
  | begin | poll => exact absurd hr Bool.false_ne_true
  | _ => rfl

/-- The operation that some work through a handle is: one of the actor, or straight on the store. -/
inductive Issues (sess : Session) (on : String) : StoreOperation → Prop
  | store {place : Nat} {c : Configuration} (m : Model) (w : Work)
      (hh : sess.handle? on = some (.store place c)) :
      Issues sess on ⟨sess.nextTicket, m, none, place, c, w, .start⟩
  | actor {n : Nat} {isGenerated : Bool} {a : Actor} (w : Work)
      (hh : sess.handle? on = some (.actor n isGenerated))
      (ha : sess.process.actors[n]? = some a) :
      Issues sess on ⟨sess.nextTicket, a.model, some n, a.store, a.configuration, w, .start⟩

/-- An operation through an actor has nothing in its way. -/
theorem issued_actorOperation (hsess : sess.Orderly) (ha : sess.process.actors[n]? = some a)
    (halive : a.isAlive = true) (hwork : IsComplete (.ok w)) (ticket : Nat) :
    Issued ⟨ticket, a.model, some n, a.store, a.configuration, w, .start⟩ sess.process where
  stage := rfl
  place := (hsess.process.actors a (List.mem_of_getElem? ha)).2
  actor := by
    rintro k ⟨⟩
    exact ⟨a, ha, rfl, halive⟩
  steps := by
    rintro steps rfl
    exact hwork steps rfl

/-- What is issued through a handle is an operation of an actor or a store that is there. -/
theorem Issues.issued (h : sess.Issues on op) (hsess : sess.Orderly)
    (hwork : IsComplete (.ok op.work)) : Issued op sess.process := by
  cases h with
  | store m w hh =>
    refine ⟨rfl, hsess.isProper hh, fun n hn => (nomatch hn), fun steps hsteps => ?_⟩
    exact hwork steps (congrArg _ hsteps)
  | actor w hh ha =>
    obtain ⟨a', ha', halive⟩ := hsess.isProper hh
    obtain rfl := Option.some.inj (ha.symm.trans ha')
    exact issued_actorOperation hsess ha halive hwork _

/-- How it turns out what a request needs: nothing changes but the count of tickets. -/
inductive Prepares (sess : Session) (r : Request) : Except Panic Prepared × Session → Prop
  | answer (answer : Answer) : Prepares sess r (.ok (.answer answer), sess)
  | immediate : Prepares sess r (.ok .immediate, sess)
  | operation {on : String} {op : StoreOperation} (hissues : sess.Issues on op)
      (hwork : IsComplete (.ok op.work))
      (hwriter : r.writer? = if op.work.isWrite then some on else none) :
      Prepares sess r (.ok (.operation op), sess.ticketed)

/-- A request through an actor becomes an operation of the actor, or an answer. -/
theorem prepares_actor {isGenerated : Bool}
    (hh : sess.handle? on = some (.actor n isGenerated)) (hwork : ∀ m, IsComplete (work m))
    (hwriter : ∀ m w, work m = .ok w → r.writer? = if w.isWrite then some on else none) :
    Prepares sess r (outcome (actorOperation n work) sess) := by
  cases ha : sess.process.actors[n]? with
  | none =>
    simp only [actorOperation, Outcome.bind_eq, Outcome.get_eq, ha]
    exact .answer _
  | some a =>
    rw [outcome_actorOperation ha]
    cases hw : work a.model with
    | error answer => exact .answer answer
    | ok w => exact .operation (.actor w hh ha) (hw ▸ hwork a.model) (hwriter a.model w hw)

theorem isComplete_of_amounts {work : Except Answer Work} {call : Except Answer ListCall}
    (h : Amounts m work call) : IsComplete work := by
  rintro steps rfl
  cases call with
  | error answer => cases h
  | ok c =>
    obtain ⟨w, hw, hrealizes⟩ := h
    obtain rfl := Except.ok.inj hw
    exact hrealizes.isCall.elim

theorem isWrite_of_amounts {call : Except Answer ListCall} (h : Amounts m (.ok w) call) :
    w.isWrite = true := by
  cases call with
  | error answer => cases h
  | ok c =>
    obtain ⟨w', hw, hrealizes⟩ := h
    obtain rfl := Except.ok.inj hw
    exact hrealizes.isCall.isWrite

/-- Creating, updating and deleting go through a generated actor. -/
theorem prepares_onGenerated {call : Model → Except Answer ListCall}
    (hamounts : ∀ m, Amounts m (work m) (call m)) (hwriter : r.writer? = some on) :
    Prepares sess r (outcome (onGenerated on work) sess) := by
  simp only [onGenerated, Outcome.bind_eq, Outcome.get_eq]
  cases hh : sess.handle? on with
  | none => exact .answer .gone
  | some h =>
    cases h with
    | actor n isGenerated =>
      cases isGenerated with
      | true =>
        refine prepares_actor hh (fun m => isComplete_of_amounts (hamounts m)) fun m w hw => ?_
        rw [isWrite_of_amounts (hw ▸ hamounts m)]
        exact hwriter
      | false => exact .answer _
    | _ => exact .answer _

/-- Listing and observing go through an actor, or ask for a store and a model. -/
theorem prepares_onHandle (model : Option Model) (hwork : w.isWrite = false)
    (hwriter : r.writer? = none) :
    Prepares sess r (outcome (do
      match (← get).handle? on, model with
      | none, _ => return .answer .gone
      | some (.actor place _), _ => actorOperation place fun _ => .ok w
      | some (.store place c), some m => storeOperation place c m w
      | some _, _ => return misused) sess) := by
  have hcomplete : IsComplete (.ok w) := by
    rintro steps ⟨⟩
    cases hwork
  have hnone : r.writer? = if w.isWrite then some on else none := by
    rw [hwork]
    exact hwriter
  simp only [Outcome.bind_eq, Outcome.get_eq]
  cases hh : sess.handle? on with
  | none => exact .answer .gone
  | some h =>
    cases h with
    | actor n isGenerated =>
      refine prepares_actor hh (fun _ => hcomplete) fun m w' hw => ?_
      cases hw
      exact hnone
    | store place c =>
      cases model with
      | none => exact .answer _
      | some m => exact .operation (.store m w hh) hcomplete hnone
    | _ => exact .answer _

theorem prepares_write {steps : List Step} (hsteps : steps.all Step.isComplete = true) :
    Prepares sess (.write on steps) (outcome (prepare (.write on steps)) sess) := by
  have hcomplete : IsComplete (.ok (.write steps)) := by
    rintro steps' ⟨⟩
    exact hsteps
  simp only [prepare, Outcome.bind_eq, Outcome.get_eq]
  cases hh : sess.handle? on with
  | none => exact .answer .gone
  | some h =>
    cases h with
    | actor n isGenerated =>
      cases isGenerated with
      | false =>
        refine prepares_actor hh (fun _ => hcomplete) fun m w hw => ?_
        cases hw
        rfl
      | true => exact .answer _
    | store place c => exact .operation (.store anyModel _ hh) hcomplete rfl
    | _ => exact .answer _

/-- A model that is not derived answers its own requests without an operation. -/
theorem prepares_underived (work : Model → Except Answer Work)
    (hmember : Request.member?.ofModel m (work m) = none) :
    Prepares sess r (outcome (memberOperation m work) sess) := by
  have hderived : m.isDerived = false := by
    unfold Request.member?.ofModel at hmember
    split at hmember
    · cases hmember
    · next h => exact Bool.eq_false_iff.mpr h
  simp only [memberOperation, hderived, Bool.false_eq_true, if_false]
  exact .answer unavailable

/-- What a request that is not one of a model itself needs. -/
theorem prepares (sess : Session) (hr : r.isComplete = true) (hmember : r.member? = none) :
    Prepares sess r (outcome (prepare r) sess) := by
  cases r with
  | create on arguments => exact prepares_onGenerated (amounts_create arguments) rfl
  | update on object changes => exact prepares_onGenerated (amounts_update object changes false) rfl
  | delete on object => exact prepares_onGenerated (amounts_delete object) rfl
  | list on model as => exact prepares_onHandle model rfl rfl
  | observe on model as isReachable => exact prepares_onHandle model rfl rfl
  | write on steps => exact prepares_write hr
  | createMember m arguments => exact prepares_underived (createWork arguments) hmember
  | updateMember m object changes =>
    exact prepares_underived (updateWork object changes true) hmember
  | deleteMember m object => exact prepares_underived (deleteWork object) hmember
  | listMember m as => exact prepares_underived (fun _ => .ok (.list as)) hmember
  | observeMember m as isReachable =>
    exact prepares_underived (fun _ => .ok (.observe as isReachable)) hmember
  | _ => exact .immediate

/-- A request of a model itself is work of that, with no step that runs a request. -/
theorem prepare_member {result : Except Answer Work} (hmember : r.member? = some (m, result)) :
    m.isDerived = true ∧ r.isComplete = true ∧ IsComplete result ∧
      ∃ work, work m = result ∧ prepare r = memberOperation m work := by
  have hof {m' : Model} (work : Model → Except Answer Work) (hr : r.isComplete = true)
      (hwork : IsComplete (work m')) (hprepare : prepare r = memberOperation m' work)
      (h : Request.member?.ofModel m' (work m') = some (m, result)) :
      m.isDerived = true ∧ r.isComplete = true ∧ IsComplete result ∧
        ∃ work, work m = result ∧ prepare r = memberOperation m work := by
    unfold Request.member?.ofModel at h
    split at h
    · next hderived =>
      cases h
      exact ⟨hderived, hr, hwork, work, rfl, hprepare⟩
    · cases h
  cases r with
  | createMember m' arguments =>
    have hwork := isComplete_of_amounts (amounts_create arguments m')
    exact hof _ rfl hwork rfl hmember
  | updateMember m' object changes =>
    have hwork := isComplete_of_amounts (amounts_update object changes true m')
    exact hof _ rfl hwork rfl hmember
  | deleteMember m' object =>
    have hwork := isComplete_of_amounts (amounts_delete object m')
    exact hof _ rfl hwork rfl hmember
  | listMember m' as =>
    exact hof (fun _ => .ok (.list as)) rfl (fun _ h => by cases h) rfl hmember
  | observeMember m' as isReachable =>
    exact hof (fun _ => .ok (.observe as isReachable)) rfl (fun _ h => by cases h) rfl hmember
  | _ => cases hmember

def memberOf (sess : Session) (m : Model) (w : Work) : StoreOperation where
  ticket := sess.nextTicket
  model := m
  actor := some (sess.process.openActor m {}).1
  store := (sess.process.openStore {}).1
  configuration := {}
  work := w

theorem issued_memberOf (hsess : sess.Orderly) (hwork : IsComplete (.ok w)) :
    Issued (sess.memberOf m w) (sess.process.openActor m {}).2 := by
  have hopened : Move sess { sess with process := (sess.process.openActor m {}).2 } :=
    .openActor m {}
  exact issued_actorOperation (hopened.orderly hsess).1 (sess.process.actor_openActor m {}) rfl
    hwork _

/-- The actor of a model itself is opened whatever the arguments are. -/
theorem outcome_memberOperation (hderived : m.isDerived = true)
    (work : Model → Except Answer Work) : outcome (memberOperation m work) sess =
      match work m with
      | .error answer =>
        (.ok (.answer answer), { sess with process := (sess.process.openActor m {}).2 })
      | .ok w => (.ok (.operation (sess.memberOf m w)),
          ticketed { sess with process := (sess.process.openActor m {}).2 }) := by
  have hactor := sess.process.actor_openActor m {}
  have hrun : outcome (memberOperation m work) sess =
      outcome (actorOperation (sess.process.openActor m {}).1 work)
        { sess with process := (sess.process.openActor m {}).2 } := by
    simp only [memberOperation, hderived, if_true, Outcome.bind_eq, onProcess,
      Outcome.modifyGet_eq]
  rw [hrun, outcome_actorOperation hactor]
  rfl

theorem outcome_runWith_refused (nested : Request → Run Answer) {answer : Answer}
    (hmember : r.member? = some (m, .error answer)) : outcome (runWith nested r) sess =
      (.ok answer, { sess with process := (sess.process.openActor m {}).2 }) := by
  obtain ⟨hderived, hr, -, work, hwork, hprepare⟩ := prepare_member hmember
  rw [runWith_eq nested hr, hprepare, Outcome.bind_eq, outcome_memberOperation hderived, hwork]
  rfl

theorem outcome_runWith_member (nested : Request → Run Answer)
    (hmember : r.member? = some (m, .ok w)) : outcome (runWith nested r) sess =
      outcome (conclude nested r (.operation (sess.memberOf m w)))
        (ticketed { sess with process := (sess.process.openActor m {}).2 }) := by
  obtain ⟨hderived, hr, -, work, hwork, hprepare⟩ := prepare_member hmember
  rw [runWith_eq nested hr, hprepare, Outcome.bind_eq, outcome_memberOperation hderived, hwork]

end Session

end RecordStore
