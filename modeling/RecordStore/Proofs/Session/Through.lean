import RecordStore.Proofs.Session.Unowned

/-!
What is asked through a handle on a store or an actor. Listing shows what is stored under the
identifier that the handle was opened by; a write that is answered as done commits to it, and an
observation that is started is one of it.
-/
namespace RecordStore

def Answer.isDone : Answer → Bool
  | .record _ | .member _ none | .deleted | .committed _ => true
  | _ => false

theorem StoreOperation.isDone_failure (op : StoreOperation) (e : StoreError) :
    (op.failure e).isDone = false := by
  unfold failure
  split <;> rfl

namespace Session

variable {bound place : Nat} {sess sess' : Session} {retained : String → Prop} {on : String}
  {r : Request} {nested : Request → Run Answer} {op : StoreOperation} {model : Option Model}
  {m : Model} {c : Configuration} {w : Work} {s s' : Store} {a : Answer}

/-- What a write through a handle makes of its store, and answers, when it is done. Steps that run
no request do the same whatever becomes of requests. -/
inductive Commits (s : Store) (m : Model) : Work → Answer → Store → Prop
  | create {values : Values} {r : Record} {s' : Store}
      (h : s.transact (Transact.create m values) = (.ok r, s')) :
      Commits s m (.create values) (.record r) s'
  | update {i : Identity} {changes : List (String × Data)} {member : Option Record} {r : Record}
      {s' : Store} (h : s.transact (Transact.modifyRecord m i (·.setAll changes)) = (.ok r, s')) :
      Commits s m (.update i changes member) (updateAnswer member r) s'
  | delete {i : Identity} {s' : Store} (h : s.transact (Transact.delete m i) = (.ok (), s')) :
      Commits s m (.delete i) .deleted s'
  | write {nested : Request → Run Answer} {steps : List Step} {answers : List Answer}
      {t : Transaction} (h : ∀ sess, outcome (runSteps nested steps s.begin) sess =
        (.ok (.finished, answers, t), sess)) :
      Commits s m (.write steps) (.committed answers) (s.commit t)

/-- A handle through which a model can be listed and observed, with the configuration that it was
opened by: one on a store or on an open actor. -/
inductive Reads (sess : Session) (on : String) (model : Option Model) :
    Model → Configuration → Prop
  | store {place : Nat} {c : Configuration} {m : Model}
      (hh : sess.handle? on = some (.store place c)) (hmodel : model = some m) :
      Reads sess on model m c
  | actor {n : Nat} {isGenerated : Bool} {a : Actor}
      (hh : sess.handle? on = some (.actor n isGenerated))
      (ha : sess.process.actors[n]? = some a) (hopen : a.isClosed = false) :
      Reads sess on model a.model a.configuration

/-- A request that is an operation is answered with what the operation comes to. -/
theorem outcome_runWith (hr : r.isComplete = true)
    (hprepare : outcome (prepare r) sess = (.ok (.operation op), sess.ticketed)) :
    outcome (runWith nested r) sess =
      outcome (conclude nested r (.operation op)) sess.ticketed := by
  rw [runWith_eq nested hr, Outcome.bind_eq, hprepare]

/-- Listing and observing through a handle. -/
theorem Reads.issues (h : sess.Reads on model m c) (w : Work) :
    ∃ op, outcome (do
      match (← get).handle? on, model with
      | none, _ => return .answer .gone
      | some (.actor place _), _ => actorOperation place fun _ => .ok w
      | some (.store place c), some m => storeOperation place c m w
      | some _, _ => return misused) sess = (.ok (.operation op), sess.ticketed) ∧
      sess.Issues on op ∧ op.model = m ∧ op.configuration = c ∧ op.work = w ∧
      ∀ n a, op.actor = some n → sess.process.actors[n]? = some a → a.isClosed = false := by
  cases h with
  | @store place c m hh hmodel =>
    subst hmodel
    refine ⟨_, ?_, .store m w hh, rfl, rfl, rfl, nofun⟩
    simp only [Outcome.bind_eq, Outcome.get_eq, hh]
    rfl
  | @actor n isGenerated a hh ha hopen =>
    refine ⟨_, ?_, .actor w hh ha, rfl, rfl, rfl, ?_⟩
    · simp only [Outcome.bind_eq, Outcome.get_eq, hh]
      exact outcome_actorOperation ha _
    · rintro n' a' ⟨⟩ ha'
      obtain rfl := Option.some.inj (ha.symm.trans ha')
      exact hopen

/-- What is written through a handle is an operation with a write to do. -/
theorem issues_of_writer (hwriter : r.writer? = some on) (hr : r.isComplete = true)
    (hprepare : (outcome (prepare r) sess).1 = .ok (.operation op)) :
    outcome (prepare r) sess = (.ok (.operation op), sess.ticketed) ∧ sess.Issues on op ∧
      op.work.isWrite = true ∧ IsComplete (.ok op.work) := by
  have hmember : r.member? = none := by
    cases r with
    | create | update | delete | write => rfl
    | _ => cases hwriter
  have hprepares := prepares sess hr hmember
  generalize outcome (prepare r) sess = result at hprepare hprepares
  cases hprepares with
  | answer | immediate => cases hprepare
  | operation hissues hwork hissued =>
    cases hprepare
    rw [hwriter] at hissued
    split at hissued
    · next hwrite =>
      cases hissued
      exact ⟨rfl, hissues, hwrite, hwork⟩
    · cases hissued

theorem Commits.identifier (h : Commits s m w a s') : s'.identifier = s.identifier := by
  cases h with
  | create h | update h | delete h =>
    exact (congrArg (·.2.identifier) h).symm.trans (s.identifier_transact _)
  | write h => rfl

/-- What a write does once it holds its locks, if it is done. -/
theorem commits_of_perform (hs : sess.process.store? op.store = some s)
    (hwork : IsComplete (.ok op.work)) (hwrite : op.work.isWrite = true)
    (hperform : outcome (perform nested op) sess = (.ok a, sess')) (hdone : a.isDone = true) :
    ∃ s', Commits s op.model op.work a s' ∧
      sess' = { sess with process := sess.process.setStore op.store s' } := by
  have hcall {α : Type} {body : Transact α} {answer : α → Answer}
      (hsame : perform nested op = performCall op body answer) : ∃ b s',
        s.transact body = (.ok b, s') ∧ a = answer b ∧
        sess' = { sess with process := sess.process.setStore op.store s' } := by
    rw [hsame, outcome_performCall, hs] at hperform
    rcases hresult : s.transact body with ⟨e | b, s'⟩ <;> simp only [hresult] at hperform <;>
      cases hperform
    · exact nomatch hdone.symm.trans (op.isDone_failure e)
    · exact ⟨b, s', rfl, rfl, rfl⟩
  cases hw : op.work with
  | create values =>
    obtain ⟨b, s', h, rfl, hsess'⟩ := hcall (perform_create hw)
    exact ⟨s', .create h, hsess'⟩
  | update i changes member =>
    obtain ⟨b, s', h, rfl, hsess'⟩ := hcall (perform_update hw)
    exact ⟨s', .update h, hsess'⟩
  | delete i =>
    obtain ⟨b, s', h, rfl, hsess'⟩ := hcall (perform_delete hw)
    exact ⟨s', .delete h, hsess'⟩
  | write steps =>
    have hsame : perform nested op = performWrite nested op steps := by
      unfold perform
      rw [hw]
    obtain ⟨result, hrun, -⟩ := staged_runSteps nested steps s.begin (hwork steps (congrArg _ hw))
    rw [hsame, outcome_performWrite hs hrun] at hperform
    rcases result with e | ⟨ending, answers, t⟩
    · cases hperform
    · cases ending with
      | failed e =>
        cases hperform
        cases hdone
      | finished =>
        cases hperform
        exact ⟨_, .write hrun, rfl⟩
  | list | observe =>
    rw [hw] at hwrite
    cases hwrite

/-- A write that is answered as done is committed, and that is all it does. -/
theorem commits_of_answer (hsess : sess.Orderly) (hop : Issued op sess.process)
    (hs : sess.process.store? op.store = some s) (hwork : IsComplete (.ok op.work))
    (hwrite : op.work.isWrite = true)
    (hrun : outcome (conclude nested r (.operation op)) sess = (.ok a, sess'))
    (hdone : a.isDone = true) : ∃ s', Commits s op.model op.work a s' ∧
      sess' = { sess with process := sess.process.setStore op.store s' } := by
  have hanswer (e : StoreError) : a ≠ op.failure e := by
    rintro rfl
    exact absurd (hdone.symm.trans (op.isDone_failure e)) (by decide)
  have hopen := open_of_conclude hsess hop hrun hanswer
  have hfree := hop.isFree hsess hopen
  have hadvance : outcome (advance nested op) sess = _ := outcome_advance hop.stage hfree
  rw [enterStore_eq hwrite] at hadvance
  split at hadvance
  · rw [outcome_conclude (hadvance.trans (outcome_finish hfree _))] at hrun
    cases hrun
    exact absurd rfl (hanswer _)
  · obtain ⟨result, sess₁, -, hperform, hlocked⟩ :=
      performed_lockWriter hsess hop.place (hop.does nested hsess hopen)
    have hadvance := hadvance.trans hlocked
    cases result with
    | error e =>
      rw [conclude, Outcome.bind_eq, hadvance] at hrun
      cases hrun
    | ok answer =>
      rw [outcome_conclude hadvance] at hrun
      cases hrun
      exact commits_of_perform hs hwork hwrite hperform hdone

theorem contents_of_keeps (hkeeps : sess.Keeps on place c) (hsess : sess.Orderly)
    (hregistered : sess.Registered retained) (hs : sess.process.store? place = some s) :
    sess.contents c.identifier = s.tables :=
  contents_of_store hregistered.process (hkeeps.openAt hsess hregistered) hs

/-- What is written through a handle, and answered as done, is what is stored next under the
identifier of the handle. -/
theorem contents_of_commits (hsess : sess.Orderly) (hregistered : sess.Registered retained)
    (hr : r.isComplete = true) (hwriter : r.writer? = some on)
    (hprepare : (outcome (prepare r) sess).1 = .ok (.operation op))
    (hs : sess.process.store? op.store = some s)
    (hanswer : ((runOuter (bound + 1) r).run sess).1 = a) (hdone : a.isDone = true) :
    sess.Keeps on op.store op.configuration ∧ ∃ s', Commits s op.model op.work a s' ∧
      (sess.next (bound + 1) r).contents op.configuration.identifier = s'.tables := by
  obtain ⟨hprepare, hissues, hwrite, hwork⟩ := issues_of_writer hwriter hr hprepare
  have hkeeps := hissues.keeps
  refine ⟨hkeeps, ?_⟩
  have hnext := next_eq bound sess r
  rw [runOuter_succ] at hanswer
  have hrun : outcome (runWith (run bound) r) sess = _ := outcome_runWith hr hprepare
  rcases hresult : outcome (runWith (run bound) r) sess with ⟨e | answer, sess'⟩ <;>
    rw [hresult] at hanswer hrun hnext
  · cases hanswer
    cases hdone
  · obtain rfl : answer = a := hanswer
    obtain ⟨s', hcommits, rfl⟩ := commits_of_answer hsess.ticketed (hissues.issued hsess hwork) hs
      hwork hwrite hrun.symm hdone
    refine ⟨s', hcommits, ?_⟩
    have hset : sess.process.ModifiesOnly (fun _ => True) (sess.process.setStore op.store s') :=
      Process.modifiesOnly_setStore hs hcommits.identifier fun h => absurd trivial h
    have hopen : ((sess.process.setStore op.store s').collect sess.roots).OpenAt op.store
        op.configuration.identifier :=
      Process.openAt_collect (hset.openAt_iff.mpr (hkeeps.openAt hsess hregistered))
        (.inr (hkeeps.isRooted hsess))
    obtain ⟨-, htables⟩ := (Process.trims_collect _ _).openAt hopen
    have hprocess : (sess.next (bound + 1) r).process =
        (sess.process.setStore op.store s').collect sess.roots := congrArg process hnext
    rw [contents_of_openAt (registered_next bound hsess hregistered hr).process (hprocess ▸ hopen),
      hprocess, htables, Process.tables?, Process.store_setStore hs, Function.update_self]
    rfl

/-- A listing answers with what is in its store. -/
theorem answer_listStore (hs : sess.process.store? place = some s) (m : Model)
    (as : Option String) :
    ∃ sess', outcome (listStore place m as) sess = (.ok (listAnswer (s.objects m)), sess') := by
  simp only [listStore, answerRecords, Outcome.bind_eq, Outcome.get_eq, hs]
  cases s.objects m with
  | error e => exact ⟨_, rfl⟩
  | ok records =>
    cases as with
    | none => exact ⟨_, rfl⟩
    | some name =>
      simp only [Outcome.bind_eq, outcome_bind_eq]
      exact ⟨_, rfl⟩

/-- Listing through a handle shows what is stored under its identifier. -/
theorem Reads.list (h : sess.Reads on model m c) (hsess : sess.Orderly)
    (hregistered : sess.Registered retained) (as : Option String) :
    ((runOuter (bound + 1) (.list on model as)).run sess).1 =
      listAnswer (((sess.contents c.identifier).table m.typeName).records m) := by
  obtain ⟨op, hprepare, hissues, rfl, rfl, hwork, hopen⟩ := h.issues (.list as)
  have hop : Issued op sess.ticketed.process :=
    hissues.issued hsess (by rw [hwork]; nofun)
  obtain ⟨s, hs⟩ := hop.store
  have hs' : (sess.ticketed.locked (acquireActor op)).process.store? op.store = some s := by
    rw [locked, Process.store?, stores_acquireActor]
    exact hs
  obtain ⟨sess', hlist⟩ := answer_listStore hs' op.model as
  have hadvance : outcome (advance (run bound) op) sess.ticketed =
      (.ok (.done (listAnswer (s.objects op.model))),
        { sess' with process := op.leaveActor sess'.process }) := by
    refine (outcome_advance hop.stage (hop.isFree hsess.ticketed hopen)).trans ?_
    unfold enterStore
    rw [hwork]
    simp only [locked] at hlist
    simp only [Outcome.bind_eq, hlist, outcome_updateProcess]
    rfl
  have hrun := (outcome_runWith (r := .list on model as) rfl hprepare).trans
    (outcome_conclude hadvance _)
  rw [runOuter_of_outcome hrun, contents_of_keeps hissues.keeps hsess hregistered hs]
  rfl

/-- An observation that was started through a handle is one of the store that is open under its
identifier, and live if its messages can reach it. -/
theorem Reads.observe (h : sess.Reads on model m c) (hsess : sess.Orderly)
    (hunowned : sess.Unowned) (hregistered : sess.Registered retained) {as : String}
    {isReachable : Bool} {id : Nat}
    (hanswer : ((runOuter (bound + 1) (.observe on model as isReachable)).run sess).1 =
      .subscription id) :
    ∃ place owner, sess.process.find? c.identifier = some place ∧
      (sess.next (bound + 1) (.observe on model as isReachable)).handle? as =
        some (.observation place id owner) ∧
      (isReachable = true →
        ((sess.next (bound + 1) (.observe on model as isReachable)).process.find?
          c.identifier).isSome →
        ∃ o, (sess.next (bound + 1) (.observe on model as isReachable)).process.observer? place id =
          some o ∧ o.IsLive ∧ o.model = m) := by
  obtain ⟨op, hprepare, hissues, rfl, rfl, hwork, hopen⟩ := h.issues (.observe as isReachable)
  have hop : Issued op sess.ticketed.process :=
    hissues.issued hsess (by rw [hwork]; nofun)
  have hplace := hissues.keeps.openAt hsess hregistered
  have hrun : outcome (runWith (run bound) (.observe on model as isReachable)) sess = _ :=
    outcome_runWith rfl hprepare
  have heffect : Effect sess (.observe on model as isReachable) _ :=
    effect_runWith (run bound) hsess rfl
  have hnext := next_eq bound sess (.observe on model as isReachable)
  rw [runOuter_succ] at hanswer
  rcases hresult : outcome (runWith (run bound) (.observe on model as isReachable)) sess with
    ⟨e | answer, sess'⟩ <;> rw [hresult] at hanswer hrun heffect hnext
  · cases hanswer
  · obtain rfl : answer = .subscription id := hanswer
    obtain ⟨hh, records, t, hserves⟩ := observing_of_answer hsess.ticketed hop hwork hrun.symm
    refine ⟨op.store, op.actor, hregistered.process.find hplace, hnext ▸ hh, ?_⟩
    rintro rfl hsome
    obtain ⟨place, hnew⟩ := Process.isSome_find_iff.mp hsome
    obtain rfl := eq_of_openAt_next hsess hregistered rfl hplace hnew
    rw [hnext] at hnew ⊢
    have hlive := Observer.isLive_start id op.model records
    have hsettled := (heffect.unowned hsess hunowned).serves_settle (heffect.orderly hsess).1
      hserves hlive.valid (mem_of_handle hh) hnew
    exact ⟨_, hsettled.observer, hlive, rfl⟩

end Session

end RecordStore
