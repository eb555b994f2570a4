import RecordStore.Proofs.Session.Contents

/-!
Observations that were started through a store. No actor holds the token of one, so nothing but
its own handle and its store can end it: as long as the store is open, what becomes of its observer
is what becomes of that of an actor.
-/
namespace RecordStore

/-- An observer that goes on and is alive is still valid. -/
theorem Observer.Goes.valid {t t' : Table} {o o' : Observer} (h : o.Goes t t' o') (ho : o.IsLive) :
    o'.isInvalidated = false := by
  cases h with
  | same => exact ho.valid
  | told => rw [o.isInvalidated_told, ho.valid]
  | received =>
    unfold receive
    simp only [ho.unfinished, Bool.false_eq_true, if_false]
    split
    · next c rest hqueue =>
      have hc : c.records?.isSome = true := by
        cases c with
        | error e => exact absurd (hqueue ▸ List.mem_cons_self) (ho.delivered e)
        | _ => rfl
      simp only [hc, if_true, ho.valid]
    · simp only [ho.reachable, ho.subscribed, Bool.and_self, if_true, ho.valid]

namespace Process

variable {p p' p'' : Process} {place id n k : Nat} {i : String} {t : Table} {o : Observer}
  {s s' : Store} {roots : List Root}

def Unheld (p : Process) (place id : Nat) : Prop :=
  ∀ (n : Nat) (a : Actor), p.actors[n]? = some a → a.store = place → id ∉ a.tokens

def TakesNoToken (p p' : Process) : Prop :=
  ∀ place id, p.Unheld place id → p'.Unheld place id

theorem takesNoToken_of_actors (h : p'.actors = p.actors) : p.TakesNoToken p' := by
  intro place id hp n a ha
  exact hp n a (h ▸ ha)

theorem actors_invalidate (p : Process) (place id : Nat) :
    (p.invalidate place id).2.actors = p.actors := p.actors_invalidateAll place [id]

/-- An actor that gives up all its tokens, and ends some. -/
theorem takesNoToken_retire {f : Actor → Actor}
    (hf : ∀ a, (f a).store = a.store ∧ (f a).tokens = []) (place : Nat) (ids : List Nat) :
    p.TakesNoToken ((p.updateActor n f).invalidateAll place ids) := by
  intro place id hp k a' ha' hplace hid
  rw [actors_invalidateAll] at ha'
  obtain ⟨a, ha, rfl⟩ := actors_updateActor ha'
  split at hplace
  · next hk =>
    rw [if_pos hk, (hf a).2] at hid
    cases hid
  · next hk =>
    rw [if_neg hk] at hid
    exact hp k a ha hplace hid

theorem takesNoToken_close (p : Process) (n : Nat) : p.TakesNoToken (p.close n) := by
  unfold close
  split
  · exact fun _ _ => id
  · split
    · exact fun _ _ => id
    · exact takesNoToken_retire (f := ({ · with isClosed := true, tokens := [] }))
        (fun _ => ⟨rfl, rfl⟩) _ _

theorem takesNoToken_dropActor (p : Process) (n : Nat) : p.TakesNoToken (p.dropActor n) := by
  unfold dropActor
  split
  · exact fun _ _ => id
  · split
    · exact takesNoToken_retire (f := ({ · with isAlive := false, tokens := [] }))
        (fun _ => ⟨rfl, rfl⟩) _ _
    · exact fun _ _ => id

/-- An actor that takes the token of another observer. -/
theorem Unheld.remember {id' : Nat} (h : p.Unheld place id)
    (hne : ∀ a, p.actors[n]? = some a → a.store = place → id ≠ id') :
    (p.remember n id').Unheld place id := by
  intro k a' ha' hplace hid
  obtain ⟨a, ha, rfl⟩ := actors_updateActor ha'
  split at hplace
  · next hk =>
    subst hk
    rw [if_pos rfl] at hid
    rcases List.mem_append.mp hid with hid | hid
    · exact h n a ha hplace (List.mem_filter.mp hid).1
    · exact hne a ha hplace (List.mem_singleton.mp hid)
  · next hk =>
    rw [if_neg hk] at hid
    exact h k a ha hplace hid

theorem takesNoToken_openStore (p : Process) (c : Configuration) :
    p.TakesNoToken (p.openStore c).2 := by
  refine takesNoToken_of_actors ?_
  unfold openStore
  split <;> rfl

theorem takesNoToken_openActor (p : Process) (m : Model) (c : Configuration) :
    p.TakesNoToken (p.openActor m c).2 := by
  intro place id hp n a ha hplace
  have ha : ((p.openStore c).2.actors ++ [{
      model := m, store := (p.openStore c).1, configuration := c }])[n]? = some a := ha
  rw [getElem_concat] at ha
  split at ha
  · obtain rfl := Option.some.inj ha
    exact List.not_mem_nil
  · exact p.takesNoToken_openStore c place id hp n a ha hplace

theorem unheld_dropActors (h : p.Unheld place id) : (p.dropActors roots).Unheld place id := by
  refine foldl_keeps (P := fun q => q.Unheld place id) (fun q k hq => ?_) _ h
  split
  · exact hq
  · exact q.takesNoToken_dropActor k place id hq

theorem unheld_collect (h : p.Unheld place id) : (p.collect roots).Unheld place id :=
  takesNoToken_of_actors (p.actors_collect roots) place id (unheld_dropActors h)

/-- Dropping what nothing refers to leaves an observer whose token no actor holds as it is, if its
store stays open. -/
theorem Serves.collect_of_unheld (h : p.Serves place id t o) (hunheld : p.Unheld place id)
    (hopen : (p.collect roots).OpenAt place i) : (p.collect roots).Serves place id t o := by
  have hactors : (p.dropActors roots).Unheld place id ∧
      (p.dropActors roots).Serves place id t o := by
    refine foldl_keeps (P := fun q => q.Unheld place id ∧ q.Serves place id t o)
      (fun q k hq => ?_) _ ⟨hunheld, h⟩
    split
    · exact hq
    · exact ⟨q.takesNoToken_dropActor k place id hq.1, hq.2.dropActor (hq.1 k)⟩
  obtain ⟨o', ho', halive, -⟩ := hopen
  -- a store that was dropped does not live again
  have hstores : (∃ o', (p.collect roots).stores[place]? = some o' ∧ o'.isAlive = true) →
      (p.collect roots).Serves place id t o := by
    rw [collect_eq]
    refine foldl_keeps (P := fun q => (∃ o', q.stores[place]? = some o' ∧ o'.isAlive = true) →
      q.Serves place id t o) (fun q k hq => ?_) _ fun _ => hactors.2
    rcases dropUnreferred_cases roots q k with ⟨hsame, -⟩ | ⟨hdropped, -⟩
    · rwa [hsame]
    · rw [hdropped]
      rintro ⟨o', ho', halive⟩
      rw [RecordStore.Process.dropStore, stores_updateStore] at ho'
      obtain ⟨os, hos, rfl⟩ := Option.map_eq_some_iff.mp ho'
      split at halive
      · cases halive
      · next hk => exact (hq ⟨os, hos, halive⟩).dropStore hk
  exact hstores ⟨o', ho', halive⟩

end Process

namespace Session

variable {sess sess' : Session} {name : String} {place id : Nat} {owner : Option Nat} {t : Table}
  {o : Observer} {r : Request} {h : Handle}

def Unowned (sess : Session) : Prop :=
  ∀ name place id, (name, Handle.observation place id none) ∈ sess.handles →
    sess.process.Unheld place id

theorem Unowned.takesNoToken (hsess : sess.Unowned) {p : Process}
    (hp : sess.process.TakesNoToken p) : Unowned { sess with process := p } :=
  fun name place id hentry => hp place id (hsess name place id hentry)

theorem actors_released (hsess : sess.Orderly) (name : String) :
    (sess.released name).actors = sess.process.actors := by
  unfold released
  cases hold : sess.handle? name with
  | none => rfl
  | some old =>
    have hproper := hsess.isProper hold
    cases old with
    | observation place id owner => exact sess.process.actors_invalidate place id
    | operation op => exact hproper.elim
    | _ => rfl

theorem Unowned.bound (hsess : sess.Unowned) (horderly : sess.Orderly) (name : String)
    (hh : ∀ place id, h = .observation place id none → sess.process.Unheld place id) :
    (sess.bound name h).Unowned := by
  intro old place id hentry
  refine Process.takesNoToken_of_actors (actors_released horderly name) place id ?_
  rcases List.mem_append.mp hentry with hentry | hentry
  · exact hsess old place id (List.mem_filter.mp hentry).1
  · exact hh place id (Prod.mk.inj (List.mem_singleton.mp hentry)).2.symm

/-- No move gives an actor an observation that was started through a store. -/
theorem Move.unowned (h : Move sess sess') (horderly : sess.Orderly) (hsess : sess.Unowned) :
    sess'.Unowned := by
  cases h with
  | ticket => exact hsess
  | openStore c => exact hsess.takesNoToken (sess.process.takesNoToken_openStore c)
  | openActor m c => exact hsess.takesNoToken (sess.process.takesNoToken_openActor m c)
  | bind name hh hobserved =>
    exact hsess.bound horderly name fun place id hsame => by
      rw [hsame] at hobserved
      cases hobserved
  | unbind name =>
    intro old place id hentry
    refine Process.takesNoToken_of_actors (actors_released horderly name) place id ?_
    exact hsess old place id (List.mem_filter.mp hentry).1
  | @observe place m isReachable actor s s' id as hs hobserve hactor =>
    obtain ⟨hnone, -⟩ := observer_of_observe horderly.process hs hobserve
    -- the observer is new, so no actor holds its token yet
    have hnew : sess.process.Unheld place id := by
      rintro n a ha rfl hid
      obtain ⟨o, ho⟩ := horderly.process.tokens n a id ha hid
      exact nomatch hnone.symm.trans ho
    have hnoted := leads_noted horderly.process hs hobserve hactor
    refine Unowned.bound (fun old place' id' hentry => ?_) (horderly.of_leads hnoted.1) as ?_
    · have hold : (sess.process.setStore place s').Unheld place' id' := hsess old place' id' hentry
      obtain ⟨o, ho⟩ := (horderly.handles _ hentry).1
      cases actor with
      | none => exact hold
      | some n =>
        refine hold.remember fun a ha hplace hsame => ?_
        obtain ⟨a', ha', rfl, -⟩ := hactor n rfl
        obtain rfl := Option.some.inj (ha'.symm.trans ha)
        rw [← hplace, hsame, hnone] at ho
        cases ho
    · rintro place' id' hsame
      cases hsame
      exact hnew

theorem Moves.unowned (h : Moves sess sess') (horderly : sess.Orderly) (hsess : sess.Unowned) :
    sess'.Unowned := by
  induction h with
  | refl => exact hsess
  | tail hmoves hmove ih => exact hmove.unowned (Moves.orderly hmoves horderly).1 ih

/-- No request gives an actor an observation that was started through a store. -/
theorem Effect.unowned (h : Effect sess r sess') (horderly : sess.Orderly) (hsess : sess.Unowned) :
    sess'.Unowned := by
  cases h with
  | done hdone =>
    cases hdone with
    | moves hmoves => exact hmoves.unowned horderly hsess
    | commit hmoves hs hnames =>
      exact (hmoves.unowned horderly hsess).takesNoToken (Process.takesNoToken_of_actors rfl)
  | close hh => exact hsess.takesNoToken (sess.process.takesNoToken_close _)
  | receive hh hs | cancel hh hs =>
    exact hsess.takesNoToken (Process.takesNoToken_of_actors rfl)
  | invalidate hh hsubscription =>
    exact hsess.takesNoToken (Process.takesNoToken_of_actors (Process.actors_invalidate _ _ _))

theorem unowned_settle (hsess : sess.Unowned) : sess.settle.Unowned :=
  fun name place id hentry => Process.unheld_collect (hsess name place id hentry)

theorem unowned_after {bound : Nat} {requests : List Request} (horderly : sess.Orderly)
    (hsess : sess.Unowned) (hrequests : AllComplete requests) :
    (sess.after (bound + 1) requests).Unowned := by
  induction requests generalizing sess with
  | nil => exact hsess
  | cons r rest ih =>
    have hr := hrequests r List.mem_cons_self
    obtain ⟨sess', heffect, hnext⟩ := effect_runOuter bound horderly hr
    refine ih (orderly_next bound horderly hr).1 ?_ fun r' hr' =>
      hrequests r' (List.mem_cons_of_mem r hr')
    rw [next, hnext]
    exact unowned_settle (heffect.unowned horderly hsess)

/-- Dropping what nothing refers to leaves an observation alone whose handle is there, if its store
stays open. -/
theorem Unowned.serves_settle (hsess : sess.Unowned) (horderly : sess.Orderly)
    (hserves : sess.process.Serves place id t o) (hvalid : o.isInvalidated = false)
    (hentry : (name, Handle.observation place id owner) ∈ sess.handles) {i : String}
    (hopen : sess.settle.process.OpenAt place i) : sess.settle.process.Serves place id t o := by
  cases owner with
  | some n => exact Session.serves_settle horderly hserves hvalid hentry
  | none => exact hserves.collect_of_unheld (hsess name place id hentry) hopen

/-- What a request makes of a live observation that it neither ends nor drops, if it does not drop
its store. -/
theorem goes_next {bound : Nat} {i : String} (horderly : sess.Orderly) (hsess : sess.Unowned)
    (hr : r.isComplete = true) (hserves : sess.process.Serves place id t o) (hlive : o.IsLive)
    (hends : ¬sess.EndsFor place id owner r)
    (hhandle : (sess.next (bound + 1) r).handle? name = some (.observation place id owner))
    (hopen : (sess.next (bound + 1) r).process.OpenAt place i) :
    ∃ t' o', o.Goes t t' o' ∧ (sess.next (bound + 1) r).process.Serves place id t' o' := by
  obtain ⟨middle, heffect, hnext⟩ := effect_runOuter bound horderly hr
  have hnext : sess.next (bound + 1) r = middle.settle := hnext
  rw [hnext] at hhandle hopen ⊢
  have hentry : (name, Handle.observation place id owner) ∈ middle.handles := mem_of_handle hhandle
  have hmiddle := (heffect.orderly horderly).1
  have hclose : (name, Handle.observation place id owner) ∈ sess.handles → ∀ k, owner ≠ some k →
      (sess.process.close k).Serves place id t o := by
    intro hentry k hk
    cases owner with
    | none => exact hserves.close (hsess name place id hentry k)
    | some n => exact serves_close horderly hserves hlive.valid hentry hk
  obtain ⟨t', o', hgoes, hserves'⟩ := heffect.goes horderly hserves hclose hentry hends
  have hunowned := heffect.unowned horderly hsess
  exact ⟨t', o', hgoes, hunowned.serves_settle hmiddle hserves' (hgoes.valid hlive) hentry hopen⟩

end Session

end RecordStore
