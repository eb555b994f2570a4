import RecordStore.Proofs.Session.Through

/-!
One store for every identifier. Whatever is opened, cloned, observed and dropped, the handles that
were opened under one identifier share a store that no other handle is on: they are shown the same
records, and what one of them commits is told to the observers of all. The store stays open from the
moment it is opened by a configuration that is not in memory, and else as long as a handle on it is
left, an actor's observations included; whoever opens it after that finds it empty.
-/
namespace RecordStore

namespace Session

variable {bound k place id : Nat} {sess sess' : Session} {retained : String → Prop}
  {requests later : List Request} {r : Request} {i on name : String} {model : Option Model}
  {m : Model} {c : Configuration} {o : Observer}

/-- A session in which nothing was done yet, with some stores that are kept. -/
def keeping (identifiers : List String) : Session where
  process := ⟨identifiers.map fun i => { store := { identifier := i }, isKept := true }, []⟩

example : keeping ["default"] = {} := rfl

/-- What is retained in the course of some requests. -/
def Retained (identifiers : List String) (requests : List Request) (i : String) : Prop :=
  i ∈ identifiers ∨ ∃ r ∈ requests, r.Retains i

def SparesContents (bound : Nat) (identifier : String) : Session → List Request → Prop
  | _, [] => True
  | sess, r :: rest => r.isComplete = true ∧ ¬sess.WritesTo r identifier ∧
      SparesContents bound identifier (sess.next bound r) rest

/-- A request that opens a store or an actor under a name. -/
inductive Opening (as : String) (c : Configuration) : Request → Prop
  | store : Opening as c (.openStore as c)
  | actor (m : Model) (isGenerated : Bool) (hoffers : m.offers isGenerated = true) :
      Opening as c (.openActor as m c isGenerated)

/-- A session in which the handles on an identifier share its store. -/
structure Coherent (bound : Nat) (retained : String → Prop) (sess : Session) : Prop where
  /-- Handles share a store just if they were opened under one identifier. -/
  shares : ∀ name place c name' place' c', sess.Keeps name place c → sess.Keeps name' place' c' →
    (place = place' ↔ c.identifier = c'.identifier)
  /-- It is the store that is open under the identifier. -/
  found : ∀ name place c, sess.Keeps name place c → sess.process.find? c.identifier = some place
  /-- Whoever lists through a handle is shown what is stored under its identifier. -/
  lists : ∀ on model m c as, sess.Reads on model m c →
    ((runOuter bound (.list on model as)).run sess).1 =
      listAnswer (((sess.contents c.identifier).table m.typeName).records m)
  /-- What is committed through a handle is what is stored under its identifier next. -/
  commits : ∀ r on op s a, r.isComplete = true → r.writer? = some on →
    (outcome (prepare r) sess).1 = .ok (.operation op) →
    sess.process.store? op.store = some s →
    ((runOuter bound r).run sess).1 = a → a.isDone = true →
    sess.Keeps on op.store op.configuration ∧ ∃ s', Commits s op.model op.work a s' ∧
      (sess.next bound r).contents op.configuration.identifier = s'.tables
  /-- What is stored under an identifier changes only by writes through handles on it. -/
  stays : ∀ i r, r.isComplete = true → ¬sess.WritesTo r i →
    ((sess.next bound r).process.find? i).isSome →
    (sess.next bound r).contents i = sess.contents i
  /-- What is observed through a handle is the store under its identifier. -/
  observes : ∀ on model m c as isReachable id, sess.Reads on model m c →
    ((runOuter bound (.observe on model as isReachable)).run sess).1 = .subscription id →
    ∃ place owner, sess.process.find? c.identifier = some place ∧
      (sess.next bound (.observe on model as isReachable)).handle? as =
        some (.observation place id owner) ∧
      (isReachable = true →
        ((sess.next bound (.observe on model as isReachable)).process.find? c.identifier).isSome →
        ∃ o, (sess.next bound (.observe on model as isReachable)).process.observer? place id =
          some o ∧ o.IsLive ∧ o.model = m)
  /-- And an observer is told whatever changes there, by whichever handle. -/
  tells : ∀ name place id owner o i r, sess.process.find? i = some place →
    sess.process.observer? place id = some o → o.IsLive →
    r.isComplete = true → ¬sess.EndsFor place id owner r →
    (sess.next bound r).handle? name = some (.observation place id owner) →
    ((sess.next bound r).process.find? i).isSome →
    ∃ o', (sess.next bound r).process.observer? place id = some o' ∧
      let t := (sess.contents i).table o.model.typeName
      let t' := ((sess.next bound r).contents i).table o.model.typeName
      o.Goes t t' o' ∧ (t' ≠ t → (t'.changesSince t).isEmpty = false →
        o'.queue = o.queue ++ [Observer.changeOf o.model t' (t'.changesSince t)])
  /-- A store is open while it is retained or a handle is left that keeps it. -/
  isOpen_iff : ∀ i, (sess.process.find? i).isSome ↔
    retained i ∨ ∃ name place c, sess.Keeps name place c ∧ c.identifier = i
  /-- Its rows survive for as long as it is open. -/
  survives : ∀ i later, SparesContents bound i sess later →
    (∀ earlier, earlier <+: later → ((sess.after bound earlier).process.find? i).isSome) →
    (sess.after bound later).contents i = sess.contents i
  /-- If it is retained they survive whatever is dropped. -/
  retains : ∀ i later, retained i → SparesContents bound i sess later →
    ((sess.after bound later).process.find? i).isSome ∧
      (sess.after bound later).contents i = sess.contents i
  /-- A clone is a handle like the one it was cloned from. -/
  clones : ∀ on as h, sess.handle? on = some h → isClonable h = true →
    (sess.next bound (.clone on as)).handle? as = some h
  /-- Dropping takes one handle away. -/
  drops : ∀ name name', (sess.next bound (.drop name)).handle? name' =
    if name' = name then none else sess.handle? name'
  /-- Opening joins the store that is open, and starts with an empty one if none is. -/
  opens : ∀ as c r, Opening as c r →
    ∃ place, (sess.next bound r).Keeps as place c ∧
      (sess.next bound r).contents c.identifier = sess.contents c.identifier ∧
      (sess.process.find? c.identifier = none →
        (sess.next bound r).process.tables? place = some [])

theorem orderly_keeping (identifiers : List String) : (keeping identifiers).Orderly := by
  refine ⟨rfl, ⟨fun o ho => ?_, fun _ ha => absurd ha List.not_mem_nil,
    fun _ _ _ ha => (nomatch ha), fun _ _ _ _ _ ha => (nomatch ha)⟩,
    fun _ h => absurd h List.not_mem_nil, fun _ h => absurd h List.not_mem_nil⟩
  obtain ⟨i, -, rfl⟩ := List.mem_map.mp ho
  exact ⟨Store.regular_empty i, rfl⟩

theorem unowned_keeping (identifiers : List String) : (keeping identifiers).Unowned :=
  fun _ _ _ hentry => absurd hentry List.not_mem_nil

theorem stores_keeping {identifiers : List String} {o : OpenStore}
    (ho : (keeping identifiers).process.stores[k]? = some o) :
    ∃ i, identifiers[k]? = some i ∧ o = { store := { identifier := i }, isKept := true } := by
  have ho : (identifiers.map fun i =>
      ({ store := { identifier := i }, isKept := true } : OpenStore))[k]? = some o := ho
  rw [List.getElem?_map] at ho
  obtain ⟨i, hi, rfl⟩ := Option.map_eq_some_iff.mp ho
  exact ⟨i, hi, rfl⟩

/-- A process that keeps a store for each of some identifiers is registered with them. -/
theorem registered_keeping {identifiers : List String} (h : identifiers.Nodup) :
    (keeping identifiers).Registered (· ∈ identifiers) := by
  refine ⟨⟨fun i k k' hk hk' => ?_, fun i => ?_, fun _ _ ha => (nomatch ha)⟩,
    fun _ _ _ hentry => absurd hentry List.not_mem_nil, List.nodup_nil⟩
  · obtain ⟨o, ho, -, hi⟩ := hk
    obtain ⟨o', ho', -, hi'⟩ := hk'
    obtain ⟨j, hj, rfl⟩ := stores_keeping ho
    obtain ⟨j', hj', rfl⟩ := stores_keeping ho'
    cases hi
    cases hi'
    exact (List.getElem?_inj (List.getElem?_eq_some_iff.mp hj).1 h).mp (hj.trans hj'.symm)
  · constructor
    · intro hi
      obtain ⟨k, hk⟩ := List.getElem?_of_mem hi
      exact ⟨k, _, (List.getElem?_map ..).trans (congrArg _ hk), rfl, rfl, rfl⟩
    · rintro ⟨k, o, ho, -, -, hidentifier⟩
      obtain ⟨j, hj, rfl⟩ := stores_keeping ho
      cases hidentifier
      exact List.mem_of_getElem? hj

theorem isSettled_keeping (identifiers : List String) : (keeping identifiers).IsSettled := by
  have hprocess : (keeping identifiers).process.collect [] = (keeping identifiers).process := by
    rw [Process.collect_eq]
    refine List.foldl_fixed' (fun k => Process.dropUnreferred_of_isReferred fun o ho => ?_) _
    obtain ⟨i, -, rfl⟩ := stores_keeping ho
    rfl
  exact congrArg (Session.mk · [] [] 0) hprocess

/-- An observer of a store is told whatever is written to it, by whichever handle. -/
theorem tells_next (hsess : sess.Orderly) (hunowned : sess.Unowned)
    (hregistered : sess.Registered retained) {owner : Option Nat}
    (hplace : sess.process.find? i = some place)
    (ho : sess.process.observer? place id = some o) (hlive : o.IsLive) (hr : r.isComplete = true)
    (hends : ¬sess.EndsFor place id owner r)
    (hkept : (sess.next (bound + 1) r).handle? name = some (.observation place id owner))
    (hopen : ((sess.next (bound + 1) r).process.find? i).isSome) :
    ∃ o', (sess.next (bound + 1) r).process.observer? place id = some o' ∧
      let t := (sess.contents i).table o.model.typeName
      let t' := ((sess.next (bound + 1) r).contents i).table o.model.typeName
      o.Goes t t' o' ∧ (t' ≠ t → (t'.changesSince t).isEmpty = false →
        o'.queue = o.queue ++ [Observer.changeOf o.model t' (t'.changesSince t)]) := by
  obtain ⟨s, hs, hobserver⟩ := Process.store_of_observer ho
  have hold := Process.openAt_of_find hplace
  obtain ⟨k, hnew⟩ := Process.isSome_find_iff.mp hopen
  obtain rfl := eq_of_openAt_next hsess hregistered hr hold hnew
  obtain ⟨t', o', hgoes, s', hs', hobserver', rfl⟩ :=
    goes_next hsess hunowned hr ⟨s, hs, hobserver, rfl⟩ hlive hends hkept hnew
  have hnext := (registered_next bound hsess hregistered hr).process
  rw [hgoes.model] at hgoes
  rw [contents_of_store hregistered.process hold hs, contents_of_store hnext hnew hs']
  exact ⟨o', (Process.observer_eq hs' id).trans hobserver', hgoes, hgoes.queue_eq hlive⟩

theorem SparesContents.complete (h : SparesContents bound i sess later) : AllComplete later := by
  induction later generalizing sess with
  | nil => exact fun _ hr => absurd hr List.not_mem_nil
  | cons r rest ih =>
    intro r' hr'
    rcases List.mem_cons.mp hr' with rfl | hr'
    · exact h.1
    · exact ih h.2.2 r' hr'

/-- What is stored under an identifier survives for as long as its store is open. -/
theorem contents_after (hsess : sess.Orderly) (hregistered : sess.Registered retained)
    (hspares : SparesContents (bound + 1) i sess later)
    (hopen : ∀ earlier, earlier <+: later →
      ((sess.after (bound + 1) earlier).process.find? i).isSome) :
    (sess.after (bound + 1) later).contents i = sess.contents i := by
  induction later generalizing sess retained with
  | nil => rfl
  | cons r rest ih =>
    obtain ⟨hr, hwrites, hrest⟩ := hspares
    have hfirst : ((sess.next (bound + 1) r).process.find? i).isSome :=
      hopen [r] (List.prefix_append [r] rest)
    have hnext := ih (orderly_next bound hsess hr).1 (registered_next bound hsess hregistered hr)
      hrest fun earlier hearlier => hopen (r :: earlier) (List.cons_prefix_cons.mpr ⟨rfl, hearlier⟩)
    exact hnext.trans (contents_next hsess hregistered hr hfirst hwrites)

/-- A store that is retained is open whatever is dropped. -/
theorem isSome_find_of_retained (hregistered : sess.Registered retained) (h : retained i) :
    (sess.process.find? i).isSome := by
  obtain ⟨k, hk⟩ := (hregistered.process.kept i).mp h
  exact Process.isSome_find_iff.mpr ⟨k, hk.openAt⟩

theorem find_after_of_retained (hsess : sess.Orderly) (hregistered : sess.Registered retained)
    (h : retained i) (hlater : AllComplete later) :
    ((sess.after (bound + 1) later).process.find? i).isSome :=
  isSome_find_of_retained (registered_after bound hsess hregistered hlater) (.inl h)

/-- What an actor is on after a request is what it was on, or was opened on by it. -/
theorem actor_next {n : Nat} {a' : Actor} (hsess : sess.Orderly) (hr : r.isComplete = true)
    (ha' : (sess.next (bound + 1) r).process.actors[n]? = some a') (halive : a'.isAlive = true) :
    ∃ a, (sess.process.opening r).actors[n]? = some a ∧ a'.store = a.store ∧
      a'.configuration = a.configuration := by
  have hmodifies := modifiesOnly_opening (run bound) hsess hr
  rw [next_eq] at ha'
  obtain ⟨a₁, ha₁, -, hstore, hconfiguration⟩ :=
    (Process.trims_collect _ _).actors n a' ha' halive
  obtain ⟨a, ha, hcard⟩ := hmodifies.actor ha₁
  simp only [Actor.card, Prod.mk.injEq] at hcard
  exact ⟨a, ha, hstore.symm.trans hcard.1, hconfiguration.symm.trans hcard.2.1⟩

/-- Opening gives a handle that keeps the store that was opened. -/
theorem keeps_opened (hsess : sess.Orderly) {as : String} (hr : Opening as c r) :
    (sess.next (bound + 1) r).Keeps as (sess.process.openStore c).1 c := by
  cases hr with
  | store =>
    rw [next_eq, outcome_openStore]
    exact ⟨_, handle_bound _ _ _, rfl⟩
  | actor m isGenerated hoffers =>
    have hh : (sess.next (bound + 1) (.openActor as m c isGenerated)).handle? as =
        some (.actor (sess.process.openActor m c).1 isGenerated) := by
      rw [next_eq, outcome_openActor _ as hoffers]
      exact handle_bound _ _ _
    obtain ⟨a', ha', halive⟩ := (orderly_next bound hsess rfl).1.isProper hh
    obtain ⟨a, ha, hstore, hconfiguration⟩ := actor_next hsess rfl ha' halive
    rw [opening_of_offers as hoffers] at ha
    obtain rfl := Option.some.inj (ha.symm.trans (sess.process.actor_openActor m c))
    exact ⟨_, hh, by rw [Handle.keeps?, ha', Option.map_some, hstore, hconfiguration]⟩

/-- It is the store that is open under the identifier, or a new one. -/
theorem opens_next (hsess : sess.Orderly) (hregistered : sess.Registered retained) {as : String}
    (hr : Opening as c r) :
    ∃ place, (sess.next (bound + 1) r).Keeps as place c ∧
      (sess.next (bound + 1) r).contents c.identifier = sess.contents c.identifier ∧
      (sess.process.find? c.identifier = none →
        (sess.next (bound + 1) r).process.tables? place = some []) := by
  have hkeeps : (sess.next (bound + 1) r).Keeps as _ c := keeps_opened hsess hr
  have hplain : r.isComplete = true ∧ r.writer? = none ∧ r.member? = none := by
    cases hr <;> exact ⟨rfl, rfl, rfl⟩
  obtain ⟨hcomplete, hwriter, hmember⟩ := hplain
  have hopen := hkeeps.openAt (orderly_next bound hsess hcomplete).1
    (registered_next bound hsess hregistered hcomplete)
  have hwrites : ¬sess.WritesTo r c.identifier := by simp [WritesTo, hwriter, hmember]
  refine ⟨_, hkeeps, contents_next hsess hregistered hcomplete
    (Process.isSome_find_iff.mpr ⟨_, hopen⟩) hwrites, fun hnone => ?_⟩
  obtain ⟨hopened, htables⟩ := openAt_next hsess hcomplete hopen
  rw [htables (by simp [Touches, WritesAt, hwriter, hmember])]
  rcases Session.store_opening hopened with ⟨hold, -⟩ | ⟨-, hstore⟩
  · exact nomatch hnone.symm.trans (hregistered.process.find hold)
  · rw [Process.tables?, hstore]
    rfl

theorem handle_clone {h : Handle} {on as : String} (hh : sess.handle? on = some h)
    (hclonable : isClonable h = true) :
    (sess.next (bound + 1) (.clone on as)).handle? as = some h := by
  have hrun : (outcome (runImmediate (.clone on as)) sess).2 = sess.bound as h := by
    simp only [runImmediate, left_withHandle, hh, hclonable, if_true, Outcome.bind_eq,
      outcome_bind_eq]
    rfl
  rw [next_eq, runWith_eq _ rfl]
  exact (congrArg (handle? · as) hrun).trans (handle_bound sess as h)

/-- Dropping a name takes away its handle and no other. -/
theorem handle_drop (name name' : String) :
    (sess.next (bound + 1) (.drop name)).handle? name' =
      if name' = name then none else sess.handle? name' := by
  rw [next_drop]
  split
  · next hname =>
    subst hname
    exact sess.handle_unbound_self name'
  · next hne => exact handle_unbound hne

/-- What the registry says of a process makes the session coherent. -/
theorem coherent_of_registered (hsess : sess.Orderly) (hsettled : sess.IsSettled)
    (hunowned : sess.Unowned) (hregistered : sess.Registered retained) :
    Coherent (bound + 1) retained sess where
  shares name place c name' place' c' hkeeps hkeeps' := by
    have hopen := hkeeps.openAt hsess hregistered
    have hopen' := hkeeps'.openAt hsess hregistered
    constructor
    · rintro rfl
      exact hopen.unique hopen'
    · intro hsame
      exact hregistered.process.apart _ _ _ hopen (hsame ▸ hopen')
  found name place c hkeeps := hregistered.process.find (hkeeps.openAt hsess hregistered)
  lists on model m c as h := h.list hsess hregistered as
  commits r on op s a hr hwriter hprepare hs hanswer hdone :=
    contents_of_commits hsess hregistered hr hwriter hprepare hs hanswer hdone
  stays i r hr hwrites hopen := contents_next hsess hregistered hr hopen hwrites
  observes on model m c as isReachable id h hanswer :=
    h.observe hsess hunowned hregistered hanswer
  tells name place id owner o i r hplace ho hlive hr hends hkept hopen :=
    tells_next hsess hunowned hregistered hplace ho hlive hr hends hkept hopen
  isOpen_iff i := isSome_find_iff_keeps hsess hsettled hregistered
  survives i later hspares hopen := contents_after hsess hregistered hspares hopen
  retains i later h hspares := by
    refine ⟨find_after_of_retained hsess hregistered h hspares.complete,
      contents_after hsess hregistered hspares fun earlier hearlier => ?_⟩
    refine find_after_of_retained hsess hregistered h fun r hr => ?_
    exact hspares.complete r (hearlier.subset hr)
  clones on as h hh hclonable := handle_clone hh hclonable
  drops := handle_drop
  opens as c r hr := opens_next hsess hregistered hr

/-- However stores and actors are opened, by whatever configurations, cloned, observed and dropped,
the handles that were opened under one identifier share a store, and it is open for as long as it is
retained or one of them is left. -/
theorem coherent (bound : Nat) {identifiers : List String} (h : identifiers.Nodup)
    (hrequests : AllComplete requests) :
    Coherent (bound + 1) (Retained identifiers requests)
      ((keeping identifiers).after (bound + 1) requests) := by
  have horderly := orderly_keeping identifiers
  have hregistered := registered_after bound horderly (registered_keeping h) hrequests
  exact coherent_of_registered (orderly_after bound horderly hrequests).1
    (isSettled_after (isSettled_keeping identifiers) requests)
    (unowned_after horderly (unowned_keeping identifiers) hrequests) hregistered

/-- One store is opened in memory first and then to be kept, another one in memory only, and every
handle on them is dropped. -/
def conflictingLifetimes : List Request := [
  .openActor "a" .account (.volatile "db") true, .clone "a" "b", .observe "a" none "o" true,
  .create "b" [("id", .string "x"), ("owner", .string "y"), ("balance", .integer 1)],
  .openStore "s" (.named "db"), .openStore "t" (.volatile "scratch"), .drop "s", .drop "a",
  .drop "b", .drop "o", .drop "t"]

/-- The store that is to be kept is left with what was stored in memory, and the other is gone. -/
theorem coherent_conflictingLifetimes :
    ([] : List String).Nodup ∧ AllComplete conflictingLifetimes ∧
      Coherent 1 (Retained [] conflictingLifetimes)
        ((keeping []).after 1 conflictingLifetimes) ∧
      Retained [] conflictingLifetimes "db" ∧
      ((((keeping []).after 1 conflictingLifetimes).contents "db").table "Account").rows.length =
        1 ∧
      ((keeping []).after 1 conflictingLifetimes).process.find? "scratch" = none := by
  have hcomplete : AllComplete conflictingLifetimes := by
    simp [AllComplete, conflictingLifetimes, Request.isComplete]
  have hretained : Retained [] conflictingLifetimes "db" :=
    .inr ⟨.openStore "s" (.named "db"), by simp [conflictingLifetimes], _, rfl, rfl, rfl⟩
  exact ⟨List.nodup_nil, hcomplete, coherent 0 List.nodup_nil hcomplete, hretained,
    by decide +kernel, by decide +kernel⟩

end Session

end RecordStore
