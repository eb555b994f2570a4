import RecordStore.Proofs.Session.Move
import RecordStore.Proofs.Session.Quiet

/-!
Requests that run to completion. Where nothing waits, an operation gets its locks at once and gives
them up when it is done, and nothing that it does in between depends on them; so a request makes
some moves, and then at most one commit or one thing that ends or empties an observer.
-/
namespace RecordStore

def Step.isComplete : Step → Bool
  | .run _ => false
  | _ => true

def Request.isComplete : Request → Bool
  | .begin .. | .poll _ => false
  | .write _ steps => steps.all Step.isComplete
  | _ => true

theorem modify_comm {α : Type} (l : List α) (n k : Nat) {f g : α → α}
    (h : ∀ a, f (g a) = g (f a)) : (l.modify n f).modify k g = (l.modify k g).modify n f := by
  refine List.ext_getElem? fun i => ?_
  simp only [List.getElem?_modify, Option.map_eq_map]
  cases l[i]? with
  | none => rfl
  | some a => by_cases hn : n = i <;> by_cases hk : k = i <;> simp [hn, hk, h]

/-- Something that takes locks or gives them up, and that nothing else depends on. -/
structure Locking (lock : Process → Process) : Prop where
  store : ∀ p, (lock p).store? = p.store?
  setStore : ∀ p place s, (lock p).setStore place s = lock (p.setStore place s)
  remember : ∀ p n id, (lock p).remember n id = lock (p.remember n id)

namespace Locking

variable {lock lock' : Process → Process}

protected theorem id : Locking id := ⟨fun _ => rfl, fun _ _ _ => rfl, fun _ _ _ => rfl⟩

theorem comp (h : Locking lock) (h' : Locking lock') : Locking (lock' ∘ lock) where
  store p := (h'.store _).trans (h.store p)
  setStore p place s := (h'.setStore _ place s).trans (congrArg lock' (h.setStore p place s))
  remember p n id := (h'.remember _ n id).trans (congrArg lock' (h.remember p n id))

theorem serial (n : Nat) (f : Lock → Lock) :
    Locking fun p => p.updateActor n fun a => { a with serial := f a.serial } where
  store _ := rfl
  setStore _ _ _ := rfl
  remember p k id := by
    simp only [Process.remember, Process.updateActor]
    exact congrArg (Process.mk p.stores) (modify_comm _ _ _ fun _ => rfl)

theorem writer (place : Nat) (f : Lock → Lock) :
    Locking fun p => p.updateStore place fun o => { o with writer := f o.writer } where
  store p := Process.store_updateStore fun _ => rfl
  setStore p k s := congrArg (Process.mk · p.actors) (modify_comm _ _ _ fun _ => rfl)
  remember p k id := by
    have hobserver : (p.updateStore place fun o => { o with writer := f o.writer }).observer? =
        p.observer? := by
      have hstore : (p.updateStore place fun o => { o with writer := f o.writer }).store? =
          p.store? := Process.store_updateStore fun _ => rfl
      funext k id
      rw [Process.observer?, hstore]
      rfl
    unfold Process.remember
    rw [hobserver]
    rfl

theorem invalidate (h : Locking lock) (p : Process) (place id : Nat) :
    ((lock p).invalidate place id).2 = lock (p.invalidate place id).2 := by
  unfold Process.invalidate
  rw [h.store]
  cases p.store? place with
  | none => rfl
  | some s => exact h.setStore p place _

theorem noted (h : Locking lock) (actor : Option Nat) (id : Nat) (p : Process) :
    Session.noted actor id (lock p) = lock (Session.noted actor id p) := by
  cases actor with
  | none => rfl
  | some n => exact h.remember p n id

end Locking

namespace Session

variable {sess sess' : Session} {op : StoreOperation} {α : Type} {nested : Request → Run Answer}

def locked (sess : Session) (lock : Process → Process) : Session :=
  { sess with process := lock sess.process }

/-- Naming a handle and taking a lock can be done in either order. -/
theorem bound_locked {lock : Process → Process} (hlock : Locking lock) (hsess : sess.Orderly)
    (name : String) (h : Handle) :
    (sess.locked lock).bound name h = (sess.bound name h).locked lock := by
  have hreleased : (sess.locked lock).released name = lock (sess.released name) := by
    unfold released
    cases hold : sess.handle? name with
    | none =>
      have hold' : (sess.locked lock).handle? name = none := hold
      rw [hold']
      rfl
    | some old =>
      have hproper := hsess.isProper hold
      have hold' : (sess.locked lock).handle? name = some old := hold
      rw [hold']
      cases old with
      | observation place id owner => exact hlock.invalidate _ _ _
      | operation op => exact hproper.elim
      | _ => rfl
  simp only [bound, hreleased]
  rfl

/-- What performing an operation does to a session: it names what was listed, starts an observer or
commits to its store, or it does nothing. -/
inductive Performed (op : StoreOperation) (sess : Session) : Session → Prop
  | nothing : Performed op sess sess
  | listed (name : String) (records : List Record) :
      Performed op sess (sess.bound name (.results records))
  | observed {s s' : Store} {isReachable : Bool} {id : Nat} (as : String)
      (hs : sess.process.store? op.store = some s)
      (hobserve : s.observe op.model isReachable = (.ok id, s'))
      (hactor : ∀ n, op.actor = some n → ∃ a, sess.process.actors[n]? = some a ∧
        a.store = op.store ∧ a.isAlive = true ∧ a.isClosed = false) :
      Performed op sess (sess.observing op.store s' id op.actor as)
  | committed {s : Store} {t : Transaction} (hwrite : op.work.isWrite = true)
      (hs : sess.process.store? op.store = some s) (hnames : (t.staged.map Prod.fst).Nodup) :
      Performed op sess { sess with process := sess.process.setStore op.store (s.commit t) }

theorem Performed.done (h : Performed op sess sess') : Done sess sess' := by
  cases h with
  | nothing => exact .moves .refl
  | listed name records => exact .moves (.single (.bind name trivial rfl))
  | observed as hs hobserve hactor => exact .moves (.single (.observe as hs hobserve hactor))
  | committed hwrite hs hnames => exact .commit .refl hs hnames

def Does (op : StoreOperation) (x : Run α) (sess : Session) : Prop :=
  ∃ result sess', Performed op sess sess' ∧
    ∀ lock, Locking lock → outcome x (sess.locked lock) = (result, sess'.locked lock)

def KeepsNames (body : Transact α) : Prop :=
  ∀ t : Transaction, (t.staged.map Prod.fst).Nodup →
    ((outcome body t).2.staged.map Prod.fst).Nodup

theorem keepsNames_perform (a : Access) : KeepsNames a.perform := by
  intro t ht
  obtain ⟨t', hrun, hreaches⟩ := outcome_perform a t
  rw [hrun]
  exact hreaches.names_nodup ht

theorem keepsNames_pure (a : α) : KeepsNames (pure a : Transact α) := fun _ ht => ht

theorem keepsNames_lift (e : Except StoreError α) : KeepsNames (liftM e : Transact α) := by
  intro t ht
  rw [Outcome.lift_eq]
  exact ht

theorem KeepsNames.bind {β : Type} {body : Transact α} {next : α → Transact β}
    (h : KeepsNames body) (hnext : ∀ a, KeepsNames (next a)) : KeepsNames (body >>= next) := by
  intro t ht
  have hbody := h t ht
  rw [Outcome.bind_eq]
  rcases hresult : outcome body t with ⟨_ | a, t'⟩ <;> rw [hresult] at hbody
  · exact hbody
  · exact hnext a t' hbody

theorem KeepsNames.map {β : Type} {body : Transact α} (h : KeepsNames body) (f : α → β) :
    KeepsNames (f <$> body) := by
  rw [← bind_pure_comp]
  exact h.bind fun a => keepsNames_pure (f a)

/-- A call stages one copy of each table at most. -/
theorem keepsNames_callBody {m : Model} {call : Call} {body : Transact Answer}
    (h : callBody m call = .ok body) : KeepsNames body := by
  cases call with
  | create values =>
    cases h
    exact (keepsNames_perform (.create m values)).map _
  | objects =>
    cases h
    exact (keepsNames_perform (.objects m)).map _
  | add object =>
    simp only [callBody] at h
    cases hr : m.recordArgument object <;> rw [hr] at h <;> cases h
    exact (keepsNames_perform (.add m _)).bind fun _ => keepsNames_pure _
  | resolve object =>
    simp only [callBody] at h
    cases hr : m.recordArgument object <;> rw [hr] at h <;> cases h
    exact (keepsNames_lift _).bind fun i =>
      (keepsNames_perform (.resolve m i)).bind fun _ => keepsNames_pure _
  | modify object changes =>
    simp only [callBody] at h
    cases hr : m.recordArgument object <;> rw [hr] at h
    · cases h
    · cases hc : m.changesArgument changes <;> rw [hc] at h <;> cases h
      exact (keepsNames_lift _).bind fun i =>
        (keepsNames_perform (.modify m i _)).bind fun _ => keepsNames_pure _
  | delete object =>
    simp only [callBody] at h
    cases hr : m.recordArgument object <;> rw [hr] at h <;> cases h
    exact (keepsNames_lift _).bind fun i =>
      (keepsNames_perform (.delete m i)).bind fun _ => keepsNames_pure _
  | reference object =>
    simp only [callBody] at h
    cases hr : m.recordArgument object <;> rw [hr] at h <;> cases h
    exact (keepsNames_lift _).bind fun _ => keepsNames_pure _

def answeredFirst (a : Answer) (rest : Run (StepsOutcome × List Answer × Transaction)) :
    Run (StepsOutcome × List Answer × Transaction) := do
  let (ending, answers, t) ← rest
  return (ending, a :: answers, t)

/-- Steps that change nothing but their transaction, and keep one copy of each table in it. -/
def Staged (t : Transaction) (x : Run (StepsOutcome × List Answer × Transaction)) : Prop :=
  ∃ result, (∀ sess, outcome x sess = (result, sess)) ∧
    ((t.staged.map Prod.fst).Nodup → ∀ ending answers t', result = .ok (ending, answers, t') →
      (t'.staged.map Prod.fst).Nodup)

theorem staged_pure (ending : StepsOutcome) (answers : List Answer) (t : Transaction) :
    Staged t (pure (ending, answers, t)) := by
  refine ⟨.ok (ending, answers, t), fun _ => rfl, fun ht _ _ _ h => ?_⟩
  cases h
  exact ht

theorem Staged.answeredFirst {t : Transaction}
    {rest : Run (StepsOutcome × List Answer × Transaction)} (h : Staged t rest) (a : Answer) :
    Staged t (answeredFirst a rest) := by
  obtain ⟨result, hrun, hnames⟩ := h
  unfold Session.answeredFirst
  cases result with
  | error e =>
    refine ⟨.error e, fun sess => ?_, fun _ _ _ _ h => ?_⟩
    · rw [Outcome.bind_eq, hrun]
    · cases h
  | ok result =>
    obtain ⟨ending, answers, t₁⟩ := result
    refine ⟨.ok (ending, a :: answers, t₁), fun sess => ?_, fun ht _ _ _ h => ?_⟩
    · rw [Outcome.bind_eq, hrun]
      rfl
    · cases h
      exact hnames ht ending answers t₁ rfl

theorem Staged.of_names {t t' : Transaction}
    {x : Run (StepsOutcome × List Answer × Transaction)} (h : Staged t' x)
    (hnames : (t.staged.map Prod.fst).Nodup → (t'.staged.map Prod.fst).Nodup) : Staged t x := by
  obtain ⟨result, hrun, hkeeps⟩ := h
  exact ⟨result, hrun, hkeeps ∘ hnames⟩

/-- Steps that wait for nothing only stage tables, whatever they answer. -/
theorem staged_runSteps (nested : Request → Run Answer) (steps : List Step) (t : Transaction)
    (h : steps.all Step.isComplete = true) : Staged t (runSteps nested steps t) := by
  induction steps generalizing t with
  | nil => exact staged_pure .finished [] t
  | cons step rest ih =>
    rw [List.all_cons, Bool.and_eq_true] at h
    -- what is left runs on whatever transaction there is after the first step
    have hnext (a : Answer) (t' : Transaction) :
        Staged t' (answeredFirst a (runSteps nested rest t')) := (ih t' h.2).answeredFirst a
    cases step with
    | call m call isCaught =>
      cases hbody : callBody m call with
      | error e =>
        have hrun : runSteps nested (.call m call isCaught :: rest) t =
            answeredFirst (.misuse e.message) (runSteps nested rest t) := by
          rw [runSteps]
          simp only [hbody]
          rfl
        exact hrun ▸ hnext _ t
      | ok body =>
        have hkeeps := keepsNames_callBody hbody t
        have hcall : body.run.run t = outcome body t := rfl
        rcases hresult : outcome body t with ⟨e | a, t'⟩ <;> rw [hresult] at hkeeps hcall
        · have hrun : runSteps nested (.call m call isCaught :: rest) t =
              if isCaught then answeredFirst (.failed e) (runSteps nested rest t')
              else pure (.failed e, [.failed e], t') := by
            rw [runSteps]
            simp only [hbody, hcall]
            rfl
          refine hrun ▸ Staged.of_names ?_ hkeeps
          cases isCaught with
          | true => exact hnext (.failed e) t'
          | false => exact staged_pure (.failed e) [.failed e] t'
        · have hrun : runSteps nested (.call m call isCaught :: rest) t =
              answeredFirst a (runSteps nested rest t') := by
            rw [runSteps]
            simp only [hbody, hcall]
            rfl
          exact hrun ▸ (hnext a t').of_names hkeeps
    | fail isCaught =>
      cases isCaught with
      | true => exact hnext (.failed .invalidated) t
      | false => exact staged_pure (.failed .invalidated) [.failed .invalidated] t
    | panic => exact ⟨.error ⟨⟩, fun _ => rfl, fun _ _ _ _ h => by cases h⟩
    | run r => exact absurd h.1 Bool.false_ne_true

/-- One call under the locks commits what it stages, or nothing. -/
theorem does_performCall {body : Transact α} (hbody : KeepsNames body) (answer : α → Answer)
    (hwrite : op.work.isWrite = true) : Does op (performCall op body answer) sess := by
  cases hs : sess.process.store? op.store with
  | none =>
    refine ⟨.ok .gone, sess, .nothing, fun lock hlock => ?_⟩
    have hs' : (sess.locked lock).process.store? op.store = none := by
      rw [locked, hlock.store, hs]
    rw [outcome_performCall, hs']
  | some s =>
    refine ⟨.ok (callAnswer op answer (s.transact body).1),
      { sess with process := sess.process.setStore op.store (s.transact body).2 }, ?_,
      fun lock hlock => ?_⟩
    · have hnames := hbody s.begin List.nodup_nil
      rw [Store.transact_eq]
      rcases hresult : outcome body s.begin with ⟨e | a, t⟩ <;> rw [hresult] at hnames
      · simp only [Process.setStore_self hs]
        exact .nothing
      · exact .committed hwrite hs hnames
    · have hs' : (sess.locked lock).process.store? op.store = some s := by
        rw [locked, hlock.store, hs]
      rw [outcome_performCall, hs']
      simp only [locked, hlock.setStore]

theorem outcome_performObserve (op : StoreOperation) (as : String) (isReachable : Bool)
    (sess : Session) :
    outcome (performObserve op as isReachable) sess = match sess.process.store? op.store with
      | none => (.ok .gone, sess)
      | some s => match s.observe op.model isReachable with
        | (.error e, _) => (.ok (.failed e), sess)
        | (.ok id, s') => (.ok (.subscription id), sess.observing op.store s' id op.actor as) := by
  simp only [performObserve, Outcome.bind_eq, Outcome.get_eq]
  cases sess.process.store? op.store with
  | none => rfl
  | some s =>
    rcases hobserve : s.observe op.model isReachable with ⟨e | id, s'⟩ <;> simp only [hobserve]
    · rfl
    · simp only [Outcome.bind_eq, outcome_updateProcess, observing]
      cases op.actor with
      | none => simp only [Outcome.bind_eq, outcome_bind_eq, noted, Outcome.pure_eq]
      | some n =>
        simp only [Outcome.bind_eq, outcome_bind_eq, noted, Outcome.pure_eq, outcome_updateProcess]

/-- Starting an observer, for an actor that is open or for none. -/
theorem does_performObserve (hsess : sess.Orderly) (as : String) (isReachable : Bool)
    (hactor : ∀ n, op.actor = some n → ∃ a, sess.process.actors[n]? = some a ∧
      a.store = op.store ∧ a.isAlive = true ∧ a.isClosed = false) :
    Does op (performObserve op as isReachable) sess := by
  cases hs : sess.process.store? op.store with
  | none =>
    refine ⟨.ok .gone, sess, .nothing, fun lock hlock => ?_⟩
    have hs' : (sess.locked lock).process.store? op.store = none := by
      rw [locked, hlock.store, hs]
    rw [outcome_performObserve, hs']
  | some s =>
    have hs' (lock) (hlock : Locking lock) :
        (sess.locked lock).process.store? op.store = some s := by
      rw [locked, hlock.store, hs]
    rcases hobserve : s.observe op.model isReachable with ⟨e | id, s'⟩
    · refine ⟨.ok (.failed e), sess, .nothing, fun lock hlock => ?_⟩
      rw [outcome_performObserve, hs' lock hlock]
      simp only [hobserve]
    · refine ⟨.ok (.subscription id), sess.observing op.store s' id op.actor as,
        .observed as hs hobserve hactor, fun lock hlock => ?_⟩
      have hsess' := hsess.of_leads (leads_noted hsess.process hs hobserve hactor).1
      have hprocess : noted op.actor id ((lock sess.process).setStore op.store s') =
          lock (noted op.actor id (sess.process.setStore op.store s')) := by
        rw [hlock.setStore, hlock.noted]
      rw [outcome_performObserve, hs' lock hlock]
      simp only [hobserve]
      rw [observing, observing, ← bound_locked hlock hsess']
      simp only [locked, hprocess]

theorem updateStore_eq_setStore {p : Process} {place : Nat} {s : Store}
    (hs : p.store? place = some s) (f : Store → Store) :
    p.updateStore place (fun o => { o with store := f o.store }) = p.setStore place (f s) := by
  refine congrArg (Process.mk · p.actors) (modify_congr fun o ho => ?_)
  rw [Process.store?, ho] at hs
  cases hs
  rfl

/-- A write whose steps change nothing but their transaction commits it if they finish. -/
theorem outcome_performWrite {steps : List Step} {s : Store}
    (hs : sess.process.store? op.store = some s)
    {result : Except Panic (StepsOutcome × List Answer × Transaction)}
    (hrun : ∀ sess, outcome (runSteps nested steps s.begin) sess = (result, sess)) :
    outcome (performWrite nested op steps) sess = match result with
      | .error e => (.error e, sess)
      | .ok (.failed e, answers, _) => (.ok (.failedWrite e answers), sess)
      | .ok (.finished, answers, t) => (.ok (.committed answers),
          { sess with process := sess.process.setStore op.store (s.commit t) }) := by
  simp only [performWrite, Outcome.bind_eq, Outcome.get_eq, hs, Outcome.modify_eq,
    Outcome.tryFinally_eq, hrun]
  rcases result with e | ⟨ending, answers, t⟩
  · rfl
  · cases ending with
    | failed e => rfl
    | finished =>
      simp only [Outcome.bind_eq, outcome_updateProcess]
      rw [updateStore_eq_setStore hs (·.commit t)]
      rfl

/-- A write under the locks commits what its steps have staged, or nothing. -/
theorem does_performWrite {steps : List Step} (hsteps : steps.all Step.isComplete = true)
    (hwrite : op.work.isWrite = true) : Does op (performWrite nested op steps) sess := by
  cases hs : sess.process.store? op.store with
  | none =>
    refine ⟨.ok .gone, sess, .nothing, fun lock hlock => ?_⟩
    have hs' : (sess.locked lock).process.store? op.store = none := by
      rw [locked, hlock.store, hs]
    simp only [performWrite, Outcome.bind_eq, Outcome.get_eq, hs']
    rfl
  | some s =>
    have hs' (lock) (hlock : Locking lock) :
        (sess.locked lock).process.store? op.store = some s := by
      rw [locked, hlock.store, hs]
    obtain ⟨result, hrun, hnames⟩ := staged_runSteps nested steps s.begin hsteps
    rcases result with e | ⟨ending, answers, t⟩
    · exact ⟨.error e, sess, .nothing,
        fun lock hlock => outcome_performWrite (hs' lock hlock) hrun⟩
    · cases ending with
      | failed e =>
        exact ⟨_, sess, .nothing, fun lock hlock => outcome_performWrite (hs' lock hlock) hrun⟩
      | finished =>
        refine ⟨.ok (.committed answers),
          { sess with process := sess.process.setStore op.store (s.commit t) },
          .committed hwrite hs (hnames List.nodup_nil _ _ _ rfl), fun lock hlock => ?_⟩
        rw [outcome_performWrite (hs' lock hlock) hrun]
        simp only [locked, hlock.setStore]

/-- Listing does not panic, and does the same whatever locks are held. -/
theorem does_listStore (op : StoreOperation) (hsess : sess.Orderly) (place : Nat) (m : Model)
    (as : Option String) : ∃ answer sess', Performed op sess sess' ∧ ∀ lock, Locking lock →
      outcome (listStore place m as) (sess.locked lock) = (.ok answer, sess'.locked lock) := by
  cases hs : sess.process.store? place with
  | none =>
    refine ⟨.gone, sess, .nothing, fun lock hlock => ?_⟩
    have hs' : (sess.locked lock).process.store? place = none := by
      rw [locked, hlock.store, hs]
    simp only [listStore, Outcome.bind_eq, Outcome.get_eq, hs']
    rfl
  | some s =>
    have hs' (lock) (hlock : Locking lock) : (sess.locked lock).process.store? place = some s := by
      rw [locked, hlock.store, hs]
    cases hrecords : s.objects m with
    | error e =>
      refine ⟨.failed e, sess, .nothing, fun lock hlock => ?_⟩
      simp only [listStore, answerRecords, Outcome.bind_eq, Outcome.get_eq, hs' lock hlock,
        hrecords]
      rfl
    | ok records =>
      cases as with
      | none =>
        refine ⟨.records records, sess, .nothing, fun lock hlock => ?_⟩
        simp only [listStore, answerRecords, Outcome.bind_eq, Outcome.get_eq, hs' lock hlock,
          hrecords]
        rfl
      | some name =>
        refine ⟨.records records, sess.bound name (.results records),
          .listed name records, fun lock hlock => ?_⟩
        simp only [listStore, answerRecords, Outcome.bind_eq, Outcome.get_eq, hs' lock hlock,
          hrecords, outcome_bind_eq, bound_locked hlock hsess]
        rfl

/-- What an operation does once it holds its locks. -/
theorem does_perform (hsess : sess.Orderly)
    (hsteps : ∀ steps, op.work = .write steps → steps.all Step.isComplete = true)
    (hactor : ∀ n, op.actor = some n → ∃ a, sess.process.actors[n]? = some a ∧
      a.store = op.store ∧ a.isAlive = true ∧ a.isClosed = false) :
    Does op (perform nested op) sess := by
  cases hwork : op.work with
  | create values =>
    rw [perform_create hwork]
    exact does_performCall (keepsNames_perform (.create op.model values)) _ (by rw [hwork]; rfl)
  | update i changes member =>
    rw [perform_update hwork]
    exact does_performCall (keepsNames_perform (.modify op.model i _)) _ (by rw [hwork]; rfl)
  | delete i =>
    rw [perform_delete hwork]
    exact does_performCall (keepsNames_perform (.delete op.model i)) _ (by rw [hwork]; rfl)
  | list as =>
    refine ⟨.ok .gone, sess, .nothing, fun lock _ => ?_⟩
    unfold perform
    rw [hwork]
    rfl
  | observe as isReachable =>
    have hperform : perform nested op = performObserve op as isReachable := by
      unfold perform
      rw [hwork]
    rw [hperform]
    exact does_performObserve hsess as isReachable hactor
  | write steps =>
    have hperform : perform nested op = performWrite nested op steps := by
      unfold perform
      rw [hwork]
    rw [hperform]
    exact does_performWrite (hsteps steps hwork) (by rw [hwork]; rfl)

def acquireWriter (op : StoreOperation) (p : Process) : Process :=
  p.updateStore op.store fun o => { o with writer := o.writer.acquire op.ticket }

theorem locking_acquireActor (op : StoreOperation) : Locking (acquireActor op) := by
  unfold acquireActor
  cases op.actor with
  | none => exact .id
  | some n => exact .serial n (·.acquire op.ticket)

theorem leaveActor_acquireActor_eq {p : Process} (hp : p.Orderly) (op : StoreOperation) :
    op.leaveActor (acquireActor op p) = p :=
  leaveActor_acquireActor fun _ _ a ha => (hp.actors a (List.mem_of_getElem? ha)).1

theorem leaveWriter_acquireWriter {p : Process} (hp : ∀ o ∈ p.stores, o.writer = {})
    (op : StoreOperation) : op.leaveWriter (acquireWriter op p) = p := by
  simp only [StoreOperation.leaveWriter, acquireWriter, Process.updateStore, List.modify_modify_eq]
  rw [modify_eq_self fun o ho => ?_]
  have hwriter := hp o (List.mem_of_getElem? ho)
  show ({ o with writer := (o.writer.acquire op.ticket).leave op.ticket } : OpenStore) = o
  rw [hwriter, Lock.leave_acquire, ← hwriter]

/-- An operation that has its actor's lock gets that of its store, and gives up both. -/
theorem performed_lockWriter (hsess : sess.Orderly) (hplace : op.store < sess.process.stores.length)
    (hdoes : Does op (perform nested op) sess) :
    ∃ (result : Except Panic Answer) (sess' : Session), Performed op sess sess' ∧
      outcome (perform nested op) sess = (result, sess') ∧
      outcome (do
        updateProcess (acquireWriter op)
        withWriter nested op) (sess.locked (acquireActor op)) =
        (result.map Progress.done, sess') := by
  obtain ⟨result, sess', hperformed, hrun⟩ := hdoes
  refine ⟨result, sess', hperformed, hrun id .id, ?_⟩
  have hrun := hrun (acquireWriter op ∘ acquireActor op)
    ((locking_acquireActor op).comp (.writer op.store (·.acquire op.ticket)))
  have ho := List.getElem?_eq_getElem hplace
  generalize sess.process.stores[op.store] = o at ho
  have hwriter := (hsess.process.stores o (List.mem_of_getElem? ho)).2
  have ho' : (acquireWriter op (acquireActor op sess.process)).stores[op.store]? =
      some { o with writer := o.writer.acquire op.ticket } := by
    simp [acquireWriter, Process.updateStore, stores_acquireActor, ho]
  have hheld : (o.writer.acquire op.ticket).isHeldBy op.ticket = true := by
    simp [hwriter, Lock.acquire, Lock.isHeldBy]
  have hsess' := (hperformed.done.orderly hsess).1.process
  have hleft : op.leaveActor (op.leaveWriter (acquireWriter op (acquireActor op sess'.process))) =
      sess'.process := by
    have hstores : ∀ o ∈ (acquireActor op sess'.process).stores, o.writer = {} := by
      rw [stores_acquireActor]
      exact fun o ho => (hsess'.stores o ho).2
    rw [leaveWriter_acquireWriter hstores, leaveActor_acquireActor_eq hsess']
  simp only [locked, Function.comp_apply] at hrun
  simp only [Outcome.bind_eq, withWriter, Outcome.get_eq, locked, ho', if_pos hheld, updateProcess,
    Outcome.tryFinally_eq, Outcome.modify_eq, hrun, hleft]
  cases result <;> rfl

/-- An operation with nothing in its way. -/
structure Issued (op : StoreOperation) (p : Process) : Prop where
  stage : op.stage = .start
  place : op.store < p.stores.length
  actor : ∀ n, op.actor = some n → ∃ a, p.actors[n]? = some a ∧ a.store = op.store ∧
    a.isAlive = true
  steps : ∀ steps, op.work = .write steps → steps.all Step.isComplete = true

theorem Issued.store (h : Issued op sess.process) :
    ∃ s, sess.process.store? op.store = some s :=
  ⟨_, congrArg (Option.map OpenStore.store) (List.getElem?_eq_getElem h.place)⟩

/-- What it does once it holds its locks, if it finds its actor open. -/
theorem Issued.does (h : Issued op sess.process) (nested : Request → Run Answer)
    (hsess : sess.Orderly)
    (hopen : ∀ n a, op.actor = some n → sess.process.actors[n]? = some a → a.isClosed = false) :
    Does op (perform nested op) sess := by
  refine does_perform hsess h.steps fun n hn => ?_
  obtain ⟨a, ha, hplace, halive⟩ := h.actor n hn
  exact ⟨a, ha, hplace, halive, hopen n a hn ha⟩

/-- It is let through at once then. -/
theorem Issued.isFree (h : Issued op sess.process) (hsess : sess.Orderly)
    (hopen : ∀ n a, op.actor = some n → sess.process.actors[n]? = some a → a.isClosed = false) :
    IsFree op sess.process := by
  unfold IsFree
  cases hactor : op.actor with
  | none => trivial
  | some n =>
    obtain ⟨a, ha, -, -⟩ := h.actor n hactor
    exact ⟨a, ha, (hsess.process.actors a (List.mem_of_getElem? ha)).1, hopen n a hactor ha⟩

/-- An operation whose locks are free is performed at once. -/
theorem performed_enterStore (hsess : sess.Orderly) (hop : Issued op sess.process)
    (hopen : ∀ n a, op.actor = some n → sess.process.actors[n]? = some a → a.isClosed = false) :
    ∃ (result : Except Panic Answer) (sess' : Session), Performed op sess sess' ∧
      outcome (enterStore nested op) (sess.locked (acquireActor op)) =
        (result.map Progress.done, sess') := by
  obtain ⟨result, sess', hperformed, -, hrun⟩ :=
    performed_lockWriter hsess hop.place (hop.does nested hsess hopen)
  have hrefused (a : Answer) : ∃ (result : Except Panic Answer) (sess' : Session),
      Performed op sess sess' ∧ outcome (do
        updateProcess op.leaveActor
        return Progress.done a) (sess.locked (acquireActor op)) =
          (result.map Progress.done, sess') := by
    refine ⟨.ok a, sess, .nothing, ?_⟩
    simp only [Outcome.bind_eq, outcome_updateProcess, locked,
      leaveActor_acquireActor_eq hsess.process]
    rfl
  unfold enterStore
  cases hwork : op.work with
  | list as =>
    obtain ⟨answer, sess', hlisted, hrun⟩ := does_listStore op hsess op.store op.model as
    have hsess' := (hlisted.done.orderly hsess).1.process
    refine ⟨.ok answer, sess', hlisted, ?_⟩
    simp only [Outcome.bind_eq, hrun _ (locking_acquireActor op), outcome_updateProcess]
    simp only [locked, leaveActor_acquireActor_eq hsess']
    rfl
  | observe as isReachable => exact ⟨result, sess', hperformed, hrun⟩
  | create values | update i changes member | delete i | write steps =>
    simp only
    split
    · exact hrefused _
    · exact ⟨result, sess', hperformed, hrun⟩

/-- An operation through a closed actor fails and leaves everything as it is. -/
theorem outcome_advance_closed (hsess : sess.Orderly) (hstage : op.stage = .start) {n : Nat}
    {a : Actor} (hactor : op.actor = some n) (ha : sess.process.actors[n]? = some a)
    (hclosed : a.isClosed = true) :
    outcome (advance nested op) sess =
      (.ok (.done (op.failure (.closed op.model.typeName))), sess) := by
  have hheld : (a.serial.acquire op.ticket).isHeldBy op.ticket = true := by
    have hserial := (hsess.process.actors a (List.mem_of_getElem? ha)).1
    simp [hserial, Lock.acquire, Lock.isHeldBy]
  have hleft := leaveActor_acquireActor_eq hsess.process op
  simp only [acquireActor, hactor, Process.updateActor] at hleft
  unfold advance
  rw [hstage, hactor]
  simp only [Outcome.bind_eq, outcome_updateProcess, withActor, Outcome.get_eq,
    Process.updateActor, List.getElem?_modify_eq, ha, Option.map_eq_map, Option.map_some, hheld,
    hclosed, Bool.not_true, Bool.false_eq_true, if_false, if_true, hleft]
  rfl

/-- An observation, through an open actor or none, is started as if no lock had to be taken. -/
theorem outcome_advance_observe (nested : Request → Run Answer) (hsess : sess.Orderly)
    (hop : Issued op sess.process) {as : String} {isReachable : Bool}
    (hwork : op.work = .observe as isReachable)
    (hopen : ∀ n a, op.actor = some n → sess.process.actors[n]? = some a → a.isClosed = false) :
    ∃ result sess', outcome (performObserve op as isReachable) sess = (result, sess') ∧
      outcome (advance nested op) sess = (result.map Progress.done, sess') := by
  have hperform : perform nested op = performObserve op as isReachable := by
    unfold perform
    rw [hwork]
  obtain ⟨result, sess', -, hresult, hrun⟩ :=
    performed_lockWriter hsess hop.place (hop.does nested hsess hopen)
  refine ⟨result, sess', hperform ▸ hresult, ?_⟩
  rw [outcome_advance hop.stage (hop.isFree hsess hopen)]
  unfold enterStore
  rw [hwork]
  exact hrun

/-- An operation is done at once, or panics. -/
theorem performed_advance (nested : Request → Run Answer) (hsess : sess.Orderly)
    (hop : Issued op sess.process) :
    ∃ (result : Except Panic Answer) (sess' : Session), Performed op sess sess' ∧
      outcome (advance nested op) sess = (result.map Progress.done, sess') := by
  by_cases hclosed : ∃ n a, op.actor = some n ∧ sess.process.actors[n]? = some a ∧
      a.isClosed = true
  · obtain ⟨n, a, hactor, ha, hclosed⟩ := hclosed
    exact ⟨.ok _, sess, .nothing, outcome_advance_closed hsess hop.stage hactor ha hclosed⟩
  · have hopen : ∀ n a, op.actor = some n → sess.process.actors[n]? = some a →
        a.isClosed = false := fun n a hactor ha =>
      Bool.eq_false_iff.mpr fun hsame => hclosed ⟨n, a, hactor, ha, hsame⟩
    rw [outcome_advance hop.stage (hop.isFree hsess hopen)]
    exact performed_enterStore hsess hop hopen

end Session

end RecordStore
