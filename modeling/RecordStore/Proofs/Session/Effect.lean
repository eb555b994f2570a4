import RecordStore.Proofs.Session.Prepared

/-!
What a request does to a session in which nothing waits. A request that runs to completion has one
of a few effects, whether it is answered or panics, and what nothing refers to is dropped after it;
the session that is left is again one in which nothing waits.
-/
namespace RecordStore

def Handle.isOpener : Handle → Bool
  | .store .. | .actor .. => true
  | _ => false

namespace Session

variable {sess sess' sess'' : Session} {op : StoreOperation} {nested : Request → Run Answer}
  {r : Request}

theorem Done.refl (sess : Session) : Done sess sess := .moves .refl

theorem Done.of_moves (hmoves : Moves sess sess') (h : Done sess' sess'') : Done sess sess'' := by
  cases h with
  | moves hmoves' => exact .moves (hmoves.trans hmoves')
  | commit hmoves' hs hnames => exact .commit (hmoves.trans hmoves') hs hnames

theorem performed_conclude (nested : Request → Run Answer) (r : Request) (hsess : sess.Orderly)
    (hop : Issued op sess.process) :
    Performed op sess (outcome (conclude nested r (.operation op)) sess).2 := by
  obtain ⟨result, sess', hperformed, hrun⟩ := performed_advance nested hsess hop
  simp only [conclude, Outcome.bind_eq, hrun]
  cases result with
  | error e => exact hperformed
  | ok answer => exact hperformed

/-- An operation that was not refused found its actor open. -/
theorem open_of_conclude (hsess : sess.Orderly) (hop : Issued op sess.process) {answer : Answer}
    (hrun : outcome (conclude nested r (.operation op)) sess = (.ok answer, sess'))
    (hanswer : ∀ e, answer ≠ op.failure e) (n : Nat) (a : Actor) (hactor : op.actor = some n)
    (ha : sess.process.actors[n]? = some a) : a.isClosed = false := by
  cases hclosed : a.isClosed with
  | false => rfl
  | true =>
    rw [outcome_conclude (outcome_advance_closed hsess hop.stage hactor ha hclosed)] at hrun
    cases hrun
    exact absurd rfl (hanswer _)

/-- What is left when something was asked about a handle. -/
theorem left_withHandle (on : String) (answer : Handle → Run (Option Answer)) (sess : Session) :
    (outcome (withHandle on answer) sess).2 = match sess.handle? on with
      | none => sess
      | some h => (outcome (answer h) sess).2 := by
  simp only [withHandle, Outcome.bind_eq, Outcome.get_eq]
  cases sess.handle? on with
  | none => rfl
  | some h =>
    simp only [Outcome.bind_eq]
    rcases outcome (answer h) sess with ⟨_ | _, _⟩ <;> rfl

/-- What a request that never waits does to a session. What it names was there already, or is none
of the handles that opening gives. -/
inductive Immediate (sess : Session) : Request → Session → Prop
  | nothing {r : Request} : Immediate sess r sess
  | openedStore (as : String) (c : Configuration) : Immediate sess (.openStore as c)
      (Session.bound { sess with process := (sess.process.openStore c).2 } as
        (.store (sess.process.openStore c).1 c))
  | openedActor (as : String) {m : Model} {c : Configuration} {isGenerated : Bool}
      (hoffers : m.offers isGenerated = true) :
      Immediate sess (.openActor as m c isGenerated)
        (Session.bound { sess with process := (sess.process.openActor m c).2 } as
          (.actor (sess.process.openActor m c).1 isGenerated))
  | named {r : Request} (name : String) {h : Handle} (hproper : h.IsProper sess.process)
      (hobserved : h.observed? = none)
      (hopener : h.isOpener = true → ∃ old, (old, h) ∈ sess.handles) :
      Immediate sess r (sess.bound name h)
  | dropped (on : String) : Immediate sess (.drop on) (sess.unbound on)
  | closed {on : String} {n : Nat} {isGenerated : Bool}
      (hh : sess.handle? on = some (.actor n isGenerated)) :
      Immediate sess (.close on) { sess with process := sess.process.close n }
  | received {on : String} {place id : Nat} {owner : Option Nat} {s : Store}
      (hh : sess.handle? on = some (.observation place id owner))
      (hs : sess.process.store? place = some s) :
      Immediate sess (.receive on)
        { sess with process := sess.process.setStore place (s.receive id).2 }
  | cancelled {on : String} {place id : Nat} {owner : Option Nat} {s : Store}
      (hh : sess.handle? on = some (.observation place id owner))
      (hs : sess.process.store? place = some s) :
      Immediate sess (.cancel on) { sess with process := sess.process.setStore place (s.cancel id) }
  | invalidated {on : String} {h : Handle} {place id : Nat} (hh : sess.handle? on = some h)
      (hsubscription : subscription? h = some (place, id)) :
      Immediate sess (.invalidate on)
        { sess with process := (sess.process.invalidate place id).2 }

/-- What is done at once is one of the effects that a request can have. -/
theorem Immediate.effect (h : Immediate sess r sess') : Effect sess r sess' := by
  cases h with
  | nothing => exact .done (.refl sess)
  | openedStore as c =>
    have hopened : Move sess { sess with process := (sess.process.openStore c).2 } := .openStore c
    exact .done (.moves (.tail (.single hopened)
      (.bind as (sess.process.openStore_lt c) rfl)))
  | @openedActor as m c isGenerated =>
    have hopened : Move sess { sess with process := (sess.process.openActor m c).2 } :=
      .openActor m c
    exact .done (.moves (.tail (.single hopened)
      (.bind as ⟨_, sess.process.actor_openActor m c, rfl⟩ rfl)))
  | named name hproper hobserved => exact .done (.moves (.single (.bind name hproper hobserved)))
  | dropped on => exact .done (.moves (.single (.unbind on)))
  | closed hh => exact .close hh
  | received hh hs => exact .receive hh hs
  | cancelled hh hs => exact .cancel hh hs
  | invalidated hh hsubscription => exact .invalidate hh hsubscription

/-- What a request does to the handle under a name, if there is one. -/
theorem immediate_withHandle {on : String} {answer : Handle → Run (Option Answer)}
    (h : ∀ handle, sess.handle? on = some handle →
      Immediate sess r (outcome (answer handle) sess).2) :
    Immediate sess r (outcome (withHandle on answer) sess).2 := by
  rw [left_withHandle]
  cases hh : sess.handle? on with
  | none => exact .nothing
  | some handle => exact h handle hh

theorem immediate_ask {on : String} {answer : Handle → Run (Option Answer)}
    (h : ∀ handle, (outcome (answer handle) sess).2 = sess) :
    Immediate sess r (outcome (withHandle on answer) sess).2 :=
  immediate_withHandle fun handle _ => (h handle).symm ▸ .nothing

theorem outcome_drop (on : String) (sess : Session) :
    outcome (runImmediate (.drop on)) sess =
      (.ok (.dropped (sess.handle? on).isSome), sess.unbound on) := by
  simp only [runImmediate, ← bind_pure_comp, Outcome.bind_eq, outcome_unbind_eq]
  rfl

/-- A request that is no operation is done at once, in one of a few ways. -/
theorem immediate (hsess : sess.Orderly) (r : Request) :
    Immediate sess r (outcome (runImmediate r) sess).2 := by
  cases r with
  | openStore as c =>
    simp only [runImmediate, Outcome.bind_eq, onProcess, Outcome.modifyGet_eq, outcome_bind_eq]
    exact .openedStore as c
  | openActor as m c isGenerated =>
    cases hoffers : m.offers isGenerated with
    | true =>
      simp only [runImmediate, hoffers, if_true, Outcome.bind_eq, onProcess, Outcome.modifyGet_eq,
        outcome_bind_eq]
      exact .openedActor as hoffers
    | false =>
      simp only [runImmediate, hoffers, Bool.false_eq_true, if_false]
      exact .nothing
  | configuration on =>
    refine immediate_ask fun h => ?_
    cases h <;> rfl
  | debug on => exact immediate_ask fun h => rfl
  | subscriptions on =>
    refine immediate_ask fun h => ?_
    cases h <;> rfl
  | clone on as =>
    refine immediate_withHandle fun h hh => ?_
    split
    · next hclonable =>
      have hobserved : h.observed? = none := by
        cases h with
        | observation => cases hclonable
        | _ => rfl
      simp only [Outcome.bind_eq, outcome_bind_eq]
      exact .named as (hsess.isProper hh) hobserved fun _ => ⟨on, mem_of_handle hh⟩
    · exact .nothing
  | drop on =>
    rw [outcome_drop]
    exact .dropped on
  | state on =>
    refine immediate_ask fun h => ?_
    cases h with
    | actor n isGenerated =>
      simp only [Outcome.bind_eq, Outcome.get_eq]
      cases sess.process.actors[n]? <;> rfl
    | _ => rfl
  | close on =>
    refine immediate_withHandle fun h hh => ?_
    cases h with
    | actor n isGenerated =>
      obtain ⟨a, ha, -⟩ := hsess.isProper hh
      simp only [Outcome.bind_eq, Outcome.get_eq, ha, ← bind_pure_comp, outcome_updateProcess]
      exact .closed hh
    | _ => exact .nothing
  | receive on =>
    refine immediate_withHandle fun h hh => ?_
    cases h with
    | observation place id owner =>
      simp only [Outcome.bind_eq, Outcome.get_eq]
      cases hs : sess.process.store? place with
      | none => exact .nothing
      | some s =>
        simp only [Outcome.bind_eq, outcome_updateProcess]
        exact .received hh hs
    | _ => exact .nothing
  | cancel on =>
    refine immediate_withHandle fun h hh => ?_
    cases h with
    | observation place id owner =>
      obtain ⟨⟨o, ho⟩, -⟩ := hsess.isProper hh
      obtain ⟨s, hs, -⟩ := Process.store_of_observer ho
      simp only [Outcome.bind_eq, outcome_updateProcess, updateStore_eq_setStore hs (·.cancel id)]
      exact .cancelled hh hs
    | _ => exact .nothing
  | token on as =>
    refine immediate_withHandle fun h hh => ?_
    cases hsubscription : subscription? h with
    | none => exact .nothing
    | some observed =>
      simp only [Outcome.bind_eq, outcome_bind_eq, ← bind_pure_comp]
      exact .named as (h := .token observed.1 observed.2) trivial rfl fun h => by cases h
  | tokenState on =>
    refine immediate_ask fun h => ?_
    cases subscription? h with
    | none => rfl
    | some observed =>
      simp only [Outcome.bind_eq, Outcome.get_eq, ← bind_pure_comp]
      cases sess.process.observer? observed.1 observed.2 <;> rfl
  | invalidate on =>
    refine immediate_withHandle fun h hh => ?_
    cases hsubscription : subscription? h with
    | none => exact .nothing
    | some observed =>
      simp only [Outcome.bind_eq, onProcess, Outcome.modifyGet_eq, ← bind_pure_comp]
      exact .invalidated hh hsubscription
  | results on query =>
    refine immediate_ask fun h => ?_
    cases h with
    | results records =>
      simp only
      cases queryAnswer records query <;> rfl
    | _ => rfl
  | emptyResults m as =>
    have hrun : outcome (runImmediate (.emptyResults m as)) sess =
        (.ok (.records []), sess.bound as (.results [])) := by
      simp only [runImmediate, answerRecords, Outcome.bind_eq, outcome_bind_eq]
      rfl
    rw [hrun]
    exact .named as trivial rfl fun h => by cases h
  | _ => exact .nothing

/-- Every request that waits for nothing has one of the effects. -/
theorem effect_runWith (nested : Request → Run Answer) (hsess : sess.Orderly)
    (hr : r.isComplete = true) : Effect sess r (outcome (runWith nested r) sess).2 := by
  cases hmember : r.member? with
  | none =>
    have hprepares := prepares sess hr hmember
    rw [runWith_eq nested hr, Outcome.bind_eq]
    generalize outcome (prepare r) sess = result at hprepares
    cases hprepares with
    | answer answer => exact .done (.refl sess)
    | immediate => exact (immediate hsess r).effect
    | operation hissues hwork =>
      have hop : Issued _ sess.ticketed.process := hissues.issued hsess hwork
      have hperformed := performed_conclude nested r hsess.ticketed hop
      exact .done (.of_moves (.single .ticket) hperformed.done)
  | some member =>
    obtain ⟨m, work⟩ := member
    obtain ⟨-, -, hwork, -⟩ := prepare_member hmember
    have hopened : Move sess { sess with process := (sess.process.openActor m {}).2 } :=
      .openActor m {}
    cases work with
    | error answer =>
      rw [outcome_runWith_refused nested hmember]
      exact .done (.moves (.single hopened))
    | ok w =>
      have hperformed := performed_conclude nested r (hopened.orderly hsess).1.ticketed
        (issued_memberOf hsess hwork)
      rw [outcome_runWith_member nested hmember]
      exact .done (.of_moves (.tail (.single hopened) .ticket) hperformed.done)

/-- A request is answered or panics, and what nothing refers to is dropped after it. -/
theorem runOuter_succ (bound : Nat) (r : Request) (sess : Session) :
    (runOuter (bound + 1) r).run sess = match outcome (runWith (run bound) r) sess with
      | (.ok a, sess') => (a, sess'.settle)
      | (.error _, sess') => (.panicked, sess'.settle) := by
  have hrun : StateT.run (run (bound + 1) r) sess =
      match outcome (runWith (run bound) r) sess with
      | (.ok a, sess') => (.ok a, sess'.settle)
      | (.error e, sess') => (.error e, sess') := by
    show outcome (run (bound + 1) r) sess = _
    rw [run, Outcome.bind_eq]
    rcases outcome (runWith (run bound) r) sess with ⟨_ | _, _⟩ <;> rfl
  unfold runOuter
  rw [StateT.run_bind, hrun]
  rcases outcome (runWith (run bound) r) sess with ⟨_ | _, _⟩ <;> rfl

/-- What a request leaves of a session is the effect it had, with what nothing refers to dropped. -/
theorem effect_runOuter (bound : Nat) (hsess : sess.Orderly) (hr : r.isComplete = true) :
    ∃ sess', Effect sess r sess' ∧ ((runOuter (bound + 1) r).run sess).2 = sess'.settle := by
  refine ⟨_, effect_runWith (run bound) hsess hr, ?_⟩
  rw [runOuter_succ]
  rcases outcome (runWith (run bound) r) sess with ⟨_ | _, _⟩ <;> rfl

end Session

end RecordStore
