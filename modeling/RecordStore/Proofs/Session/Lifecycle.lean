import RecordStore.Proofs.Session.Course

/-!
The life of actors and of the observations that they start. An actor is open until it is closed
through one of its handles; from then on every request through it fails and changes nothing, and all
that it ever started is over: the tokens are ended, the store has no subscription for them, and the
streams yield what they held when the actor was closed and nothing else. An observation that nobody
ends lives as long as its own handle does, whatever becomes of the handles on its actor.
-/
namespace RecordStore

namespace Session

variable {bound n place id : Nat} {sess : Session} {requests later : List Request} {r : Request}
  {name : String} {a : Actor} {o : Observer} {t : Table}

/-- An observation that is over. Its token is ended, its store has no subscription for it, and all
that its stream yields are changes that are left for it. -/
structure IsOver (bound : Nat) (sess : Session) (place id : Nat) (left : List Change) : Prop where
  token : ∃ s o, sess.process.store? place = some s ∧ s.observer? id = some o ∧
    o.isInvalidated = true ∧ id ∉ s.subscriptions ∧ o.queue <:+ left
  yields : ∀ on owner, sess.handle? on = some (.observation place id owner) →
    ∃ x, ((runOuter bound (.receive on)).run sess).1 = .received x ∧
      (x = .ended ∨ ∃ c ∈ left, x = .change c)

/-- A request that leaves an observation alone: it is no end of it from outside, its handle is still
there afterwards, and what was to be delivered to it was. -/
structure Spares (bound : Nat) (name : String) (place id n : Nat) (sess : Session) (r : Request) :
    Prop where
  complete : r.isComplete = true
  stays : ¬ sess.Ends place id n r
  handle : (sess.next bound r).handle? name = some (.observation place id (some n))
  delivered : ∀ o, (sess.next bound r).process.observer? place id = some o →
    ∀ e, .error e ∉ o.queue

def SparesAll (bound : Nat) (name : String) (place id n : Nat) : Session → List Request → Prop
  | _, [] => True
  | sess, r :: rest =>
    Spares bound name place id n sess r ∧ SparesAll bound name place id n (sess.next bound r) rest

/-- The life of the actors of a session that some requests led to, and of what they started. -/
structure Lifecycle (bound : Nat) (requests : List Request) (sess : Session) : Prop where
  /-- An actor stays for its model and its store, and closed once it is. -/
  stays : ∀ later, AllComplete later → ∀ (n : Nat) a, sess.process.actors[n]? = some a →
    ∃ a', (sess.after bound later).process.actors[n]? = some a' ∧ a.Later a'
  /-- Whatever is asked through a handle on a closed actor fails and changes nothing. -/
  refuses : ∀ on n isGenerated a r work, sess.handle? on = some (.actor n isGenerated) →
    sess.process.actors[n]? = some a → a.isClosed = true →
    r.through? isGenerated = some (on, work) →
    (refusal a.model (work a.model)).IsFailure ∧ ∃ ticket, (runOuter bound r).run sess =
      (refusal a.model (work a.model), { sess with nextTicket := ticket })
  /-- Closing an actor ends all that it started. -/
  closes : ∀ on n isGenerated, sess.handle? on = some (.actor n isGenerated) →
    ((runOuter bound (.close on)).run sess).1 = .state true ∧
    (∃ a, (sess.next bound (.close on)).process.actors[n]? = some a ∧ a.isClosed = true) ∧
    ∀ place id, HasStarted bound requests n place id →
      ∃ o, sess.process.observer? place id = some o ∧ ∀ later, AllComplete later →
        ((sess.next bound (.close on)).after bound later).IsOver bound place id o.queue
  /-- Closing it again changes nothing. -/
  closes_again : ∀ on n isGenerated a, sess.handle? on = some (.actor n isGenerated) →
    sess.process.actors[n]? = some a → a.isClosed = true →
    (runOuter bound (.close on)).run sess = (.state true, sess)
  /-- In every session with a closed actor all that it ever started is over. -/
  ended : ∀ n a place id, HasStarted bound requests n place id →
    sess.process.actors[n]? = some a → a.isClosed = true →
    ∃ o, sess.process.observer? place id = some o ∧ ∀ later, AllComplete later →
      (sess.after bound later).IsOver bound place id o.queue
  /-- A stream that has come to its end yields nothing else from then on. -/
  ends : ∀ n a place id on owner, HasStarted bound requests n place id →
    sess.process.actors[n]? = some a → a.isClosed = true →
    sess.handle? on = some (.observation place id owner) →
    ((runOuter bound (.receive on)).run sess).1 = .received .ended →
    ∀ later on' owner', AllComplete later →
      (sess.after bound later).handle? on' = some (.observation place id owner') →
      ((runOuter bound (.receive on')).run (sess.after bound later)).1 = .received .ended
  /-- What is started through a handle on an actor is the actor's. Its token is valid, and where its
  runtime is there, it is live. -/
  starts : ∀ on n isGenerated model as isReachable id,
    sess.handle? on = some (.actor n isGenerated) →
    ((runOuter bound (.observe on model as isReachable)).run sess).1 = .subscription id →
    ∃ place o, (sess.next bound (.observe on model as isReachable)).handle? as =
        some (.observation place id (some n)) ∧
      (sess.next bound (.observe on model as isReachable)).process.observer? place id = some o ∧
      o.isInvalidated = false ∧ (isReachable = true → o.IsLive)
  /-- So is what is started by a model itself. -/
  starts_member : ∀ m as isReachable id,
    ((runOuter bound (.observeMember m as isReachable)).run sess).1 = .subscription id →
    ∃ n place o, (sess.next bound (.observeMember m as isReachable)).handle? as =
        some (.observation place id (some n)) ∧
      (sess.next bound (.observeMember m as isReachable)).process.observer? place id = some o ∧
      o.isInvalidated = false ∧ (isReachable = true → o.IsLive)
  /-- An observation whose token is valid is as it was when any other handles are dropped. -/
  outlives : ∀ name place id n o, sess.handle? name = some (.observation place id (some n)) →
    sess.process.observer? place id = some o → o.isInvalidated = false →
    ∀ names : List String, name ∉ names →
    (sess.after bound (names.map .drop)).handle? name = some (.observation place id (some n)) ∧
      (sess.after bound (names.map .drop)).process.observer? place id = some o
  /-- It stays live and subscribed while requests leave it alone. -/
  lives : ∀ name place id n o, sess.handle? name = some (.observation place id (some n)) →
    sess.process.observer? place id = some o → o.IsLive →
    ∀ later, SparesAll bound name place id n sess later →
    ∃ s o', (sess.after bound later).process.store? place = some s ∧ s.observer? id = some o' ∧
      o'.IsLive ∧ id ∈ s.subscriptions
  /-- And it is sent every new version of its table. -/
  delivers : ∀ name place id n o t, sess.handle? name = some (.observation place id (some n)) →
    sess.process.Serves place id t o → o.IsLive →
    ∀ r t' o', Spares bound name place id n sess r →
    (sess.next bound r).process.Serves place id t' o' → t' ≠ t →
    (t'.changesSince t).isEmpty = false →
    ∃ records, t'.records o.model = .ok records ∧
      o'.queue = o.queue ++ [.update records (t'.changesSince t)]

/-- What a closed actor started is over, and stays so. -/
theorem isOver_after (bound : Nat) (hsess : sess.Orderly) (hstarted : sess.process.Started n place id)
    (ha : sess.process.actors[n]? = some a) (hclosed : a.isClosed = true)
    (ho : sess.process.observer? place id = some o) (hlater : AllComplete later) :
    (sess.after (bound + 1) later).IsOver (bound + 1) place id o.queue ∧
      ∃ o', (sess.after (bound + 1) later).process.observer? place id = some o' ∧ o.Later o' ∧
        o.isSubscribed = false := by
  obtain ⟨hafter, hbecomes⟩ := orderly_after bound hsess hlater
  obtain ⟨a', ha', hactor⟩ := hbecomes.actor n a ha
  obtain ⟨s₀, o₀, hs₀, ho₀, -, hunsubscribed, -⟩ := ended_of_closed hsess hstarted ha hclosed
  obtain rfl := Option.some.inj (((Process.observer_eq hs₀ id).trans ho₀).symm.trans ho)
  obtain ⟨o', ho', hobserver⟩ := hbecomes.observer place id o₀ ho
  obtain ⟨s, o'', hs, hso, hinvalidated, -, hsubscriptions⟩ := ended_of_closed hafter
    (hbecomes.started n place id hstarted) ha' (hactor.closed hclosed)
  obtain rfl := Option.some.inj (((Process.observer_eq hs id).trans hso).symm.trans ho')
  have hqueue : o''.queue <:+ o₀.queue := hobserver.queue hunsubscribed
  refine ⟨⟨⟨s, o'', hs, hso, hinvalidated, hsubscriptions, hqueue⟩, fun on owner hh => ?_⟩,
    o'', ho', hobserver, hunsubscribed⟩
  refine ⟨_, runOuter_receive bound hh ho', ?_⟩
  rcases Observer.receive_of_unsubscribed (hobserver.unsubscribed hunsubscribed) with
    hended | ⟨c, hc, hchange⟩
  · exact .inl hended
  · exact .inr ⟨c, hqueue.subset hc, hchange⟩

/-- The session after an actor was closed. -/
theorem isClosed_next_close (bound : Nat) (hsess : sess.Orderly) {on : String}
    {isGenerated : Bool}
    (hh : sess.handle? on = some (.actor n isGenerated)) :
    ((runOuter (bound + 1) (.close on)).run sess).1 = .state true ∧
      (∃ a, (sess.next (bound + 1) (.close on)).process.actors[n]? = some a ∧
        a.isClosed = true) ∧
      sess.process.KeepsQueues (sess.next (bound + 1) (.close on)).process := by
  obtain ⟨a, ha, -⟩ := hsess.isProper hh
  obtain ⟨a', ha', hclosed⟩ := isClosed_close ha
  have hlater : sess.process.Leads (sess.process.close n) := Process.later_close hsess.process n
  obtain ⟨a'', ha'', hactor⟩ := (Process.later_collect hlater.orderly sess.roots).actor n a' ha'
  rw [next, runOuter_close bound hh ha]
  exact ⟨rfl, ⟨a'', ha'', hactor.closed hclosed⟩,
    (sess.process.keepsQueues_close n).trans (Process.keepsQueues_collect _ sess.roots)⟩

/-- Closing an actor leaves what it started with what it held. -/
theorem isOver_close (hsess : sess.Orderly) (hstarted : sess.process.Started n place id)
    {on : String} {isGenerated : Bool} (hh : sess.handle? on = some (.actor n isGenerated)) :
    ∃ o, sess.process.observer? place id = some o ∧ ∀ later, AllComplete later →
      ((sess.next (bound + 1) (.close on)).after (bound + 1) later).IsOver (bound + 1) place id
        o.queue := by
  obtain ⟨-, ⟨a, ha, hclosed⟩, hqueues⟩ := isClosed_next_close bound hsess hh
  obtain ⟨hnext, hbecomes⟩ := orderly_next bound (r := .close on) hsess rfl
  obtain ⟨o, ho⟩ := hstarted.observer
  obtain ⟨o', ho', hqueue⟩ := hqueues place id o ho
  refine ⟨o, ho, fun later hlater => hqueue ▸ ?_⟩
  exact (isOver_after bound hnext (hbecomes.started n place id hstarted) ha hclosed ho' hlater).1

/-- A stream at its end yields nothing else once its actor is closed. -/
theorem ended_after (hsess : sess.Orderly) (hstarted : sess.process.Started n place id)
    (ha : sess.process.actors[n]? = some a) (hclosed : a.isClosed = true) {on on' : String}
    {owner owner' : Option Nat} (hh : sess.handle? on = some (.observation place id owner))
    (hended : ((runOuter (bound + 1) (.receive on)).run sess).1 = .received .ended)
    (hlater : AllComplete later)
    (hh' : (sess.after (bound + 1) later).handle? on' = some (.observation place id owner')) :
    ((runOuter (bound + 1) (.receive on')).run (sess.after (bound + 1) later)).1 =
      .received .ended := by
  obtain ⟨o, ho⟩ := hstarted.observer
  obtain ⟨-, o', ho', hobserver, hunsubscribed⟩ :=
    isOver_after bound hsess hstarted ha hclosed ho hlater
  rw [runOuter_receive bound hh ho, Answer.received.injEq] at hended
  rw [runOuter_receive bound hh' ho', hobserver.receive_ended hunsubscribed hended]

/-- A request that leaves a live observation alone. -/
theorem Spares.goes (h : Spares (bound + 1) name place id n sess r) (hsess : sess.Orderly)
    (hserves : sess.process.Serves place id t o) (hlive : o.IsLive) :
    ∃ t' o', o.Goes t t' o' ∧ o'.IsLive ∧
      (sess.next (bound + 1) r).process.Serves place id t' o' := by
  obtain ⟨middle, heffect, hnext⟩ := effect_runOuter bound hsess h.complete
  have hnext : sess.next (bound + 1) r = middle.settle := hnext
  have hhandle := h.handle
  have hdelivered := h.delivered
  rw [hnext] at hhandle hdelivered ⊢
  have hentry : (name, Handle.observation place id (some n)) ∈ middle.handles :=
    mem_of_handle hhandle
  obtain ⟨t', o', hgoes, hserves'⟩ := heffect.serves hsess hserves hlive.valid hentry h.stays
  obtain ⟨o'', ho'', hqueue⟩ := middle.process.keepsQueues_collect middle.roots place id o'
    hserves'.observer
  have hlive' : o'.IsLive := hgoes.isLive hlive (hqueue ▸ hdelivered o'' ho'')
  obtain ⟨hmiddle, -⟩ := heffect.orderly hsess
  exact ⟨t', o', hgoes, hlive', serves_settle hmiddle hserves' hlive'.valid hentry⟩

/-- An observation that nothing ends is served through all later requests. -/
theorem lives_after (hsess : sess.Orderly)
    (hh : sess.handle? name = some (.observation place id (some n)))
    (hserves : sess.process.Serves place id t o) (hlive : o.IsLive)
    (hlater : SparesAll (bound + 1) name place id n sess later) :
    ∃ t' o', (sess.after (bound + 1) later).process.Serves place id t' o' ∧ o'.IsLive ∧
      (sess.after (bound + 1) later).Orderly := by
  induction later generalizing sess t o with
  | nil => exact ⟨t, o, hserves, hlive, hsess⟩
  | cons r rest ih =>
    obtain ⟨hfirst, hrest⟩ := hlater
    obtain ⟨t', o', -, hlive', hserves'⟩ := hfirst.goes hsess hserves hlive
    exact ih (orderly_next bound hsess hfirst.complete).1 hfirst.handle hserves' hlive' hrest

/-- Dropping other handles leaves a live observation as it is. -/
theorem outlives_drop (bound : Nat) (hsess : sess.Orderly)
    (hh : sess.handle? name = some (.observation place id (some n)))
    (hserves : sess.process.Serves place id t o) (hvalid : o.isInvalidated = false)
    {names : List String} (hnames : name ∉ names) :
    (sess.after (bound + 1) (names.map .drop)).handle? name =
        some (.observation place id (some n)) ∧
      (sess.after (bound + 1) (names.map .drop)).process.Serves place id t o := by
  induction names generalizing sess with
  | nil => exact ⟨hh, hserves⟩
  | cons other rest ih =>
    rw [List.mem_cons, not_or] at hnames
    have hhandle : (sess.unbound other).handle? name = some (.observation place id (some n)) :=
      (handle_unbound hnames.1).trans hh
    obtain ⟨-, hserves'⟩ := (Move.unbind other).serves hsess hserves (mem_of_handle hhandle)
    have hunbound := orderly_unbound hsess other
    refine ih (orderly_next bound hsess rfl).1 ?_ ?_ hnames.2 <;> rw [next_drop]
    · exact hhandle
    · exact serves_settle hunbound hserves' hvalid (mem_of_handle hhandle)

/-- The life of actors and observations in every session that requests lead to. -/
theorem lifecycle (bound : Nat) (requests : List Request) (hrequests : AllComplete requests) :
    Lifecycle (bound + 1) requests (after (bound + 1) {} requests) := by
  obtain ⟨hsess, -⟩ := orderly_after bound orderly_empty hrequests
  have hsettled : (after (bound + 1) {} requests).IsSettled := isSettled_after isSettled_empty _
  generalize hafter : after (bound + 1) {} requests = sess at hsess hsettled
  have hstarted : ∀ {n place id}, HasStarted (bound + 1) requests n place id →
      sess.process.Started n place id := fun h => hafter ▸ h.started hrequests
  constructor
  case stays =>
    intro later hlater n a ha
    exact (orderly_after bound hsess hlater).2.actor n a ha
  case refuses =>
    intro on n isGenerated a r work hh ha hclosed hr
    exact ⟨isFailure_refusal (isPlain_through hr a.model) a.model,
      runOuter_of_isClosed hsess hsettled hh ha hclosed hr⟩
  case closes =>
    intro on n isGenerated hh
    obtain ⟨hanswer, hclosed, -⟩ := isClosed_next_close bound hsess hh
    exact ⟨hanswer, hclosed, fun place id h => isOver_close hsess (hstarted h) hh⟩
  case closes_again =>
    intro on n isGenerated a hh ha hclosed
    rw [runOuter_close bound hh ha, close_of_isClosed ha hclosed]
    exact congrArg _ hsettled
  case ended =>
    intro n a place id h ha hclosed
    obtain ⟨o, ho⟩ := (hstarted h).observer
    exact ⟨o, ho, fun later hlater =>
      (isOver_after bound hsess (hstarted h) ha hclosed ho hlater).1⟩
  case ends =>
    intro n a place id on owner h ha hclosed hh hended later on' owner' hlater hh'
    exact ended_after hsess (hstarted h) ha hclosed hh hended hlater hh'
  case starts =>
    intro on n isGenerated model as isReachable id hh hanswer
    obtain ⟨a, records, -, hhandle, ho⟩ := started_of_observe hsess hh hanswer
    refine ⟨a.store, _, hhandle, ho, rfl, ?_⟩
    rintro rfl
    exact Observer.isLive_start id a.model records
  case starts_member =>
    intro m as isReachable id hanswer
    obtain ⟨n, place, records, hhandle, ho⟩ := started_of_observeMember hsess hanswer
    refine ⟨n, place, _, hhandle, ho, rfl, ?_⟩
    rintro rfl
    exact Observer.isLive_start id m records
  case outlives =>
    intro name place id n o hh ho hvalid names hnames
    obtain ⟨t, hserves⟩ := Process.serves_of_observer ho
    obtain ⟨hhandle, hserves'⟩ := outlives_drop bound hsess hh hserves hvalid hnames
    exact ⟨hhandle, hserves'.observer⟩
  case lives =>
    intro name place id n o hh ho hlive later hlater
    obtain ⟨t, hserves⟩ := Process.serves_of_observer ho
    obtain ⟨t', o', ⟨s, hs, ho', -⟩, hlive', hsess'⟩ := lives_after hsess hh hserves hlive hlater
    have hnumbered := (Process.regular_of_store hsess'.process hs).numbered
    exact ⟨s, o', hs, ho', hlive',
      (Store.mem_subscriptions_iff hnumbered ho').mpr hlive'.subscribed⟩
  case delivers =>
    intro name place id n o t hh hserves hlive r t' o' hspares hserves' hne hchanged
    obtain ⟨t₁, o₁, hgoes, hlive', hserves₁⟩ := hspares.goes hsess hserves hlive
    obtain ⟨rfl, rfl⟩ := hserves₁.unique hserves'
    exact hgoes.queue hlive hlive'.delivered hne hchanged

/-- Two actors on one store. One is closed, and the other is kept by its observation only. -/
def twoActors : List Request := [
  .openActor "a" .account (.volatile "db") true, .clone "a" "b", .observe "a" none "o" true,
  .drop "a", .drop "b", .openActor "c" .account (.volatile "db") true, .clone "c" "d",
  .observe "c" none "p" true,
  .create "c" [("id", .string "x"), ("owner", .string "y"), ("balance", .integer 1)], .close "d"]

theorem lifecycle_twoActors :
    AllComplete twoActors ∧ Lifecycle 1 twoActors (after 1 {} twoActors) ∧
      HasStarted 1 twoActors 1 1 2 ∧
      ((after 1 {} twoActors).process.actors[1]?).map Actor.isClosed = some true ∧
      ((after 1 {} twoActors).process.observer? 1 1).map
        (fun o => (o.isInvalidated, o.queue.length)) = some (false, 2) := by
  have hcomplete : AllComplete twoActors := by simp [AllComplete, twoActors, Request.isComplete]
  exact ⟨hcomplete, lifecycle 0 twoActors hcomplete,
    ⟨twoActors.take 8, "p", List.take_prefix 8 twoActors, rfl⟩, by decide +kernel,
    by decide +kernel⟩

end Session

end RecordStore
