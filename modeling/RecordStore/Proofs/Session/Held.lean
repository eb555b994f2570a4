import RecordStore.Proofs.Session.Settled

/-!
What a request does to an observation that it neither drops nor ends. Its handle keeps the actor
that started it, and so its store, whatever becomes of the handles on the actor; all that happens to
its observer is that it is told of a commit or that a change is taken from it.
-/
namespace RecordStore

namespace Observer

variable {t t' : Table} {o o' : Observer}

/-- What becomes of an observer that nothing ends, and of its table. -/
inductive Goes (t : Table) (o : Observer) : Table → Observer → Prop
  | same : Goes t o t o
  | received : Goes t o t o.receive.2
  | told (t' : Table) : Goes t o t' (o.told t t')

/-- An observer to which everything has been delivered, and that can be sent more. -/
structure IsLive (o : Observer) : Prop where
  valid : o.isInvalidated = false
  unfinished : o.isFinished = false
  subscribed : o.isSubscribed = true
  reachable : o.isReachable = true
  delivered : ∀ e, .error e ∉ o.queue

theorem isLive_start (id : Nat) (m : Model) (records : List Record) :
    (start id m records true).IsLive :=
  ⟨rfl, rfl, rfl, rfl, fun _ he => nomatch List.mem_singleton.mp he⟩

/-- What a live observer is told: nothing, or the change from a version of its table to the next. -/
theorem IsLive.told_eq (ho : o.IsLive) (t t' : Table) :
    o.told t t' = if (t'.changesSince t).isEmpty then o
      else o.send (changeOf o.model t' (t'.changesSince t)) := by
  simp [told, notify, ho.subscribed]

/-- A live observer stays so unless it is sent an error. -/
theorem Goes.isLive (h : Goes t o t' o') (ho : o.IsLive) (hdelivered : ∀ e, .error e ∉ o'.queue) :
    o'.IsLive := by
  cases h with
  | same => exact ho
  | received =>
    unfold receive at hdelivered ⊢
    simp only [ho.unfinished, Bool.false_eq_true, if_false] at hdelivered ⊢
    split
    · next c rest hqueue =>
      have hc : c.records?.isSome = true := by
        cases c with
        | error e => exact absurd (hqueue ▸ List.mem_cons_self) (ho.delivered e)
        | _ => rfl
      simp only [hc, if_true]
      exact ⟨ho.valid, rfl, ho.subscribed, ho.reachable,
        fun e he => ho.delivered e (hqueue ▸ List.mem_cons_of_mem c he)⟩
    · simp only [ho.reachable, ho.subscribed, Bool.and_self, if_true]
      exact ho
  | told =>
    rw [ho.told_eq] at hdelivered ⊢
    split at hdelivered
    · next hempty => simpa only [if_pos hempty] using ho
    · next hempty =>
      rw [if_neg hempty]
      simp only [send, ho.reachable, if_true] at hdelivered ⊢
      refine ⟨ho.valid, ho.unfinished, ?_, rfl, hdelivered⟩
      unfold changeOf at hdelivered ⊢
      split at hdelivered
      · rfl
      · next e _ => exact absurd (List.mem_append_right _ List.mem_cons_self) (hdelivered e)

/-- A live observer that is told of a new version of its table is sent what has changed. -/
theorem Goes.queue_eq (h : Goes t o t' o') (ho : o.IsLive) (hne : t' ≠ t)
    (hchanged : (t'.changesSince t).isEmpty = false) :
    o'.queue = o.queue ++ [changeOf o.model t' (t'.changesSince t)] := by
  cases h with
  | same => exact absurd rfl hne
  | received => exact absurd rfl hne
  | told =>
    rw [ho.told_eq, if_neg (by simp [hchanged])]
    simp only [send, ho.reachable, if_true]

/-- Unless that is an error, it is the records of the version and where it differs. -/
theorem Goes.queue (h : Goes t o t' o') (ho : o.IsLive) (hdelivered : ∀ e, .error e ∉ o'.queue)
    (hne : t' ≠ t) (hchanged : (t'.changesSince t).isEmpty = false) :
    ∃ records, t'.records o.model = .ok records ∧
      o'.queue = o.queue ++ [.update records (t'.changesSince t)] := by
  have hqueue := h.queue_eq ho hne hchanged
  rw [hqueue] at hdelivered ⊢
  unfold changeOf at hdelivered ⊢
  split at hdelivered
  · next records hrecords => exact ⟨records, hrecords, rfl⟩
  · next e _ => exact absurd (List.mem_append_right _ List.mem_cons_self) (hdelivered e)

theorem Goes.model (h : Goes t o t' o') : o'.model = o.model := by
  cases h with
  | same => rfl
  | received => exact o.later_receive.model
  | told => exact o.model_told _ _

end Observer

namespace Process

variable {p p' : Process} {place id n k : Nat} {t : Table} {o : Observer} {s s' : Store}
  {roots : List Root}

def Serves (p : Process) (place id : Nat) (t : Table) (o : Observer) : Prop :=
  ∃ s, p.store? place = some s ∧ s.observer? id = some o ∧ s.tables.table o.model.typeName = t

theorem Serves.observer (h : p.Serves place id t o) : p.observer? place id = some o := by
  obtain ⟨s, hs, ho, -⟩ := h
  exact (observer_eq hs id).trans ho

theorem serves_of_observer (h : p.observer? place id = some o) : ∃ t, p.Serves place id t o := by
  obtain ⟨s, hs, ho⟩ := store_of_observer h
  exact ⟨_, s, hs, ho, rfl⟩

theorem Serves.unique {t' : Table} {o' : Observer} (h : p.Serves place id t o)
    (h' : p.Serves place id t' o') : t = t' ∧ o = o' := by
  obtain ⟨s, hs, ho, rfl⟩ := h
  obtain ⟨s', hs', ho', rfl⟩ := h'
  obtain rfl := Option.some.inj (hs.symm.trans hs')
  obtain rfl := Option.some.inj (ho.symm.trans ho')
  exact ⟨rfl, rfl⟩

/-- What becomes of a store that keeps its tables and the observer. -/
theorem Serves.setStore (h : p.Serves place id t o) (hs : p.store? k = some s)
    (hsame : k = place → s'.tables = s.tables ∧ s'.observer? id = s.observer? id) :
    (p.setStore k s').Serves place id t o := by
  obtain ⟨s₁, hs₁, ho, ht⟩ := h
  by_cases hk : k = place
  · subst hk
    obtain rfl := Option.some.inj (hs.symm.trans hs₁)
    obtain ⟨htables, hobserver⟩ := hsame rfl
    refine ⟨s', ?_, hobserver.trans ho, htables ▸ ht⟩
    rw [store_setStore hs, Function.update_self]
  · refine ⟨s₁, ?_, ho, ht⟩
    rw [store_setStore hs, Function.update_of_ne (Ne.symm hk)]
    exact hs₁

/-- Ending another observation leaves an observer served. -/
theorem Serves.invalidate {j : Nat} (h : p.Serves place id t o) (hne : (k, j) ≠ (place, id)) :
    (p.invalidate k j).2.Serves place id t o := by
  unfold RecordStore.Process.invalidate
  cases hs : p.store? k with
  | none => exact h
  | some s =>
    refine h.setStore hs fun hk => ⟨s.tables_invalidate j, ?_⟩
    · subst hk
      have ho := (observer_eq hs id).symm.trans h.observer
      have hid : o.subscription ≠ j := by
        rw [Store.subscription_of_observer ho]
        rintro rfl
        exact hne rfl
      rw [Store.observer_invalidate ho, if_neg hid, ho]

/-- Ending other observations leaves an observer served. -/
theorem Serves.invalidateAll {ids : List Nat} (h : p.Serves place id t o)
    (hne : k = place → id ∉ ids) : (p.invalidateAll k ids).Serves place id t o := by
  unfold RecordStore.Process.invalidateAll
  induction ids generalizing p with
  | nil => exact h
  | cons j rest ih =>
    refine ih (h.invalidate ?_) fun hk hid => hne hk (List.mem_cons_of_mem j hid)
    rintro ⟨rfl, rfl⟩
    exact hne rfl List.mem_cons_self

/-- Opening a store leaves an observer served. -/
theorem Serves.openStore (h : p.Serves place id t o) (c : Configuration) :
    (p.openStore c).2.Serves place id t o := by
  obtain ⟨s, hs, ho, ht⟩ := h
  refine ⟨s, ?_, ho, ht⟩
  unfold RecordStore.Process.openStore
  split
  · next k _ =>
    let keep (o : OpenStore) : OpenStore := { o with isKept := o.isKept || !c.inMemory }
    have hkeep : (p.updateStore k keep).store? = p.store? := store_updateStore fun _ => rfl
    exact (congrFun hkeep place).trans hs
  · obtain ⟨os, hos, rfl⟩ := Option.map_eq_some_iff.mp hs
    have hlt : place < p.stores.length := (List.getElem?_eq_some_iff.mp hos).1
    simp only [store?, List.getElem?_append_left hlt, hos, Option.map_some]

theorem Serves.dropStore (h : p.Serves place id t o) (hk : k ≠ place) :
    (p.dropStore k).Serves place id t o := by
  obtain ⟨s, hs, ho, ht⟩ := h
  exact ⟨s, (store_dropStore k hs).trans (by rw [if_neg hk]), ho, ht⟩

theorem Started.observer (h : p.Started n place id) : ∃ o, p.observer? place id = some o := by
  obtain ⟨a, o, -, -, ho, -⟩ := h
  exact ⟨o, ho⟩

/-- An actor that is open holds the token of an observer that it started, until the token is
ended. -/
theorem Started.holds (h : p.Started n place id) (ho : p.observer? place id = some o)
    (hvalid : o.isInvalidated = false) :
    ∃ a, p.actors[n]? = some a ∧ a.store = place ∧ id ∈ a.tokens ∧ a.isClosed = false := by
  obtain ⟨a, o', ha, hplace, ho', hheld⟩ := h
  obtain rfl := Option.some.inj (ho.symm.trans ho')
  rcases hheld with hinvalidated | ⟨hid, hopen⟩
  · exact nomatch hvalid.symm.trans hinvalidated
  · exact ⟨a, ha, hplace, hid, hopen⟩

/-- What another actor gives up is not the token. -/
theorem not_mem_tokens (hp : p.Orderly) (hstarted : p.Started n place id)
    (ho : p.observer? place id = some o) (hvalid : o.isInvalidated = false) (hk : k ≠ n)
    {a : Actor} (ha : p.actors[k]? = some a) : a.store = place → id ∉ a.tokens := by
  obtain ⟨a', ha', hplace, hid, -⟩ := hstarted.holds ho hvalid
  exact fun hsame hid' => hk (hp.apart k n a a' id ha ha' (hsame.trans hplace.symm) hid' hid)

/-- Closing an actor leaves an observer alone whose token the actor does not hold. -/
theorem Serves.close (h : p.Serves place id t o)
    (hne : ∀ a, p.actors[k]? = some a → a.store = place → id ∉ a.tokens) :
    (p.close k).Serves place id t o := by
  unfold RecordStore.Process.close
  cases ha : p.actors[k]? with
  | none => exact h
  | some a =>
    simp only
    split
    · exact h
    · have h' : (p.updateActor k ({ · with isClosed := true, tokens := [] })).Serves place id t o :=
        h
      exact h'.invalidateAll (hne a ha)

/-- Dropping an actor leaves the observers served that it did not start. -/
theorem Serves.dropActor (h : p.Serves place id t o)
    (hne : ∀ a, p.actors[k]? = some a → a.store = place → id ∉ a.tokens) :
    (p.dropActor k).Serves place id t o := by
  unfold RecordStore.Process.dropActor
  cases ha : p.actors[k]? with
  | none => exact h
  | some a =>
    simp only
    split
    · have h' : (p.updateActor k ({ · with isAlive := false, tokens := [] })).Serves place id t o :=
        h
      exact h'.invalidateAll (hne a ha)
    · exact h

/-- Dropping what nothing refers to leaves an observer whose actor is kept as it is. -/
theorem Serves.collect (h : p.Serves place id t o) (hp : p.Orderly)
    (hstarted : p.Started n place id) (halive : p.IsAlive n) (hvalid : o.isInvalidated = false)
    (hn : Root.actor n ∈ roots) : (p.collect roots).Serves place id t o := by
  let Holds (q : Process) : Prop :=
    q.Orderly ∧ q.Started n place id ∧ q.IsAlive n ∧ q.Serves place id t o
  have hstep {q q' : Process} (hq : Holds q) (hlater : q.Later (· = n) q')
      (hserves : q'.Serves place id t o) : Holds q' :=
    ⟨hlater.orderly, hlater.started n place id hq.2.1, hlater.alive n rfl hq.2.2.1, hserves⟩
  have hactors : Holds (p.dropActors roots) := by
    refine foldl_keeps (P := Holds) (fun q k hq => ?_) _ ⟨hp, hstarted, halive, h⟩
    split
    · exact hq
    · next hk =>
      have hkn : k ≠ n := by
        rintro rfl
        exact hk (List.contains_iff_mem.mpr hn)
      refine hstep hq (later_dropActor hq.1 hkn) (hq.2.2.2.dropActor fun a ha => ?_)
      exact not_mem_tokens hq.1 hq.2.1 hq.2.2.2.observer hvalid hkn ha
  have hstores : Holds (p.collect roots) := by
    rw [collect_eq]
    refine foldl_keeps (P := Holds) (fun q k hq => ?_) _ hactors
    rcases dropUnreferred_cases roots q k with ⟨hq', -⟩ | ⟨hq', hunreferred⟩ <;> rw [hq']
    · exact hq
    · obtain ⟨a, ha, hplace, -, -⟩ := hq.2.1.holds hq.2.2.2.observer hvalid
      obtain ⟨a', ha', halive'⟩ := hq.2.2.1
      obtain rfl := Option.some.inj (ha.symm.trans ha')
      -- the actor lives on its store, so the store is not the one that is dropped
      have hk : k ≠ place := by
        rintro rfl
        have hany : q.actors.any (fun a => a.isAlive && a.store == k) = true :=
          List.any_eq_true.mpr ⟨a, List.mem_of_getElem? ha, by simp [halive', hplace]⟩
        rw [isStoreReferred, hany, Bool.or_true] at hunreferred
        cases hunreferred
      exact hstep hq (later_dropStore hq.1 k) (hq.2.2.2.dropStore hk)
  exact hstores.2.2.2

end Process

namespace Session

variable {sess sess' : Session} {name : String} {place id n : Nat} {owner : Option Nat} {t : Table}
  {o : Observer} {r : Request}

/-- Dropping a handle leaves an observer alone that it is no observation of. -/
theorem serves_released (hsess : sess.Orderly) (h : sess.process.Serves place id t o)
    (hold : ∀ old, sess.handle? name = some old → old.observed? ≠ some (place, id)) :
    (sess.released name).Serves place id t o := by
  unfold released
  cases hname : sess.handle? name with
  | none => exact h
  | some old =>
    have hproper := hsess.isProper hname
    cases old with
    | observation place' id' owner' =>
      exact h.invalidate fun hsame => hold _ hname (congrArg some hsame)
    | operation op => exact hproper.elim
    | _ => exact h

/-- No other handle is on the same observation. -/
theorem Orderly.observed_ne (hsess : sess.Orderly)
    (hentry : (name, Handle.observation place id owner) ∈ sess.handles) {name' : String}
    (hne : name ≠ name') {old : Handle} (hold : sess.handle? name' = some old) :
    old.observed? ≠ some (place, id) := fun hsame =>
  hne (hsess.unique _ hentry _ (mem_of_handle hold) _ rfl hsame)

/-- A handle on an observation that is there after another handle was named was there before. -/
theorem serves_bound (hsess : sess.Orderly) (h : sess.process.Serves place id t o) {name' : String}
    {handle : Handle} (hnew : handle.observed? ≠ some (place, id))
    (hentry : (name, Handle.observation place id owner) ∈ (sess.bound name' handle).handles) :
    (name, Handle.observation place id owner) ∈ sess.handles ∧
      (sess.bound name' handle).process.Serves place id t o := by
  rcases List.mem_append.mp hentry with hentry | hentry
  · obtain ⟨hentry, hne⟩ := List.mem_filter.mp hentry
    have hne : name ≠ name' := by simpa using hne
    exact ⟨hentry, serves_released hsess h fun _ => hsess.observed_ne hentry hne⟩
  · obtain ⟨-, rfl⟩ := Prod.mk.inj (List.mem_singleton.mp hentry)
    exact absurd rfl hnew

/-- A move leaves the observer of an observation alone if its handle is still there. -/
theorem Move.serves (h : Move sess sess') (hsess : sess.Orderly)
    (hserves : sess.process.Serves place id t o)
    (hentry : (name, Handle.observation place id owner) ∈ sess'.handles) :
    (name, Handle.observation place id owner) ∈ sess.handles ∧
      sess'.process.Serves place id t o := by
  cases h with
  | ticket => exact ⟨hentry, hserves⟩
  | openStore c => exact ⟨hentry, hserves.openStore c⟩
  | openActor m c =>
    have hopened : (sess.process.openStore c).2.Serves place id t o := hserves.openStore c
    exact ⟨hentry, hopened⟩
  | bind name' hh hobserved =>
    exact serves_bound hsess hserves (by rw [hobserved]; exact nofun) hentry
  | unbind name' =>
    obtain ⟨hentry, hne⟩ := List.mem_filter.mp hentry
    have hne : name ≠ name' := by simpa using hne
    exact ⟨hentry, serves_released hsess hserves fun _ => hsess.observed_ne hentry hne⟩
  | @observe place' m isReachable actor s s' id' as hs hobserve hactor =>
    obtain ⟨hnone, -⟩ := observer_of_observe hsess.process hs hobserve
    have hsess' := hsess.of_leads (leads_noted hsess.process hs hobserve hactor).1
    have hnew : (place', id') ≠ (place, id) := by
      rintro ⟨rfl, rfl⟩
      exact nomatch hnone.symm.trans hserves.observer
    have hset : (sess.process.setStore place' s').Serves place id t o := by
      refine hserves.setStore hs fun hplace => ?_
      subst hplace
      have ho := (Process.observer_eq hs id).symm.trans hserves.observer
      have htables : (s.observe m isReachable).2.tables = s.tables := s.tables_observe m _
      have ho' : (s.observe m isReachable).2.observer? id = some o := Store.observer_observe m ho
      rw [hobserve] at htables ho'
      exact ⟨htables, ho'.trans ho.symm⟩
    have hnoted : (noted actor id' (sess.process.setStore place' s')).Serves place id t o := by
      cases actor with
      | none => exact hset
      | some n => exact hset
    exact serves_bound hsess' hnoted (fun hsame => hnew (Option.some.inj hsame)) hentry

/-- An observer whose handle stays is served through all moves. -/
theorem Moves.serves (h : Moves sess sess') (hsess : sess.Orderly)
    (hserves : sess.process.Serves place id t o)
    (hentry : (name, Handle.observation place id owner) ∈ sess'.handles) :
    (name, Handle.observation place id owner) ∈ sess.handles ∧
      sess'.process.Serves place id t o := by
  induction h using Relation.ReflTransGen.head_induction_on generalizing t o with
  | refl => exact ⟨hentry, hserves⟩
  | head hmove hmoves ih =>
    obtain ⟨hmiddle, hleads⟩ := hmove.orderly hsess
    -- the handle was there after the first move, whatever that made of the observer
    obtain ⟨o', ho', -⟩ := hleads.observer place id o hserves.observer
    obtain ⟨t', hserves'⟩ := Process.serves_of_observer ho'
    obtain ⟨hentry', -⟩ := ih hmiddle hserves'
    obtain ⟨hentry, hserves⟩ := hmove.serves hsess hserves hentry'
    exact ⟨hentry, (ih hmiddle hserves).2⟩

def Ends (sess : Session) (place id n : Nat) : Request → Prop
  | .cancel on => ∃ owner, sess.handle? on = some (.observation place id owner)
  | .invalidate on => ∃ h, sess.handle? on = some h ∧ subscription? h = some (place, id)
  | .close on => ∃ isGenerated, sess.handle? on = some (.actor n isGenerated)
  | _ => False

/-- What a commit does to an observer of its store, and to one of another store. -/
theorem goes_commit {p : Process} {k : Nat} {s : Store} {c : Transaction}
    (h : p.Serves place id t o) (hs : p.store? k = some s)
    (hnames : (c.staged.map Prod.fst).Nodup) :
    ∃ t' o', o.Goes t t' o' ∧ (p.setStore k (s.commit c)).Serves place id t' o' := by
  by_cases hk : k = place
  · subst hk
    obtain ⟨s', hs', ho, ht⟩ := h
    obtain rfl := Option.some.inj (hs.symm.trans hs')
    have hcommit : (p.setStore k (s.commit c)).store? k = some (s.commit c) := by
      rw [Process.store_setStore hs, Function.update_self]
    have hlater := s.later_committedTo c
    have ho' : (s.commit c).observer? id = some (s.committedTo c o) :=
      Store.observer_of_map (Store.observers_commit hnames) (fun o => (hlater o).subscription) ho
    have htable := Store.table_commit (s := s) hnames o.model.typeName
    refine ⟨_, s.committedTo c o, ?_, s.commit c, hcommit, ho', rfl⟩
    rw [(hlater o).model, htable, ht]
    unfold Store.committedTo
    cases c.staged.get? o.model.typeName with
    | none => exact .same
    | some t' => exact ht ▸ .told t'
  · exact ⟨t, o, .same, h.setStore hs fun hsame => absurd hsame hk⟩

/-- An observer whose handle stays is served through an operation, and told what it commits. -/
theorem Done.serves (h : Done sess sess') (hsess : sess.Orderly)
    (hserves : sess.process.Serves place id t o)
    (hentry : (name, Handle.observation place id owner) ∈ sess'.handles) :
    (name, Handle.observation place id owner) ∈ sess.handles ∧
      ∃ t' o', o.Goes t t' o' ∧ sess'.process.Serves place id t' o' := by
  cases h with
  | moves hmoves =>
    obtain ⟨hentry, hserves⟩ := hmoves.serves hsess hserves hentry
    exact ⟨hentry, t, o, .same, hserves⟩
  | commit hmoves hs hnames =>
    obtain ⟨hentry, hserves⟩ := hmoves.serves hsess hserves hentry
    exact ⟨hentry, goes_commit hserves hs hnames⟩

def EndsFor (sess : Session) (place id : Nat) (owner : Option Nat) : Request → Prop
  | .cancel on => ∃ owner', sess.handle? on = some (.observation place id owner')
  | .invalidate on => ∃ h, sess.handle? on = some h ∧ subscription? h = some (place, id)
  | .close on => ∃ n isGenerated, owner = some n ∧ sess.handle? on = some (.actor n isGenerated)
  | _ => False

/-- An observer that a request does not end is left alone, or told of a commit, or received from. -/
theorem Effect.goes (h : Effect sess r sess') (hsess : sess.Orderly)
    (hserves : sess.process.Serves place id t o)
    (hclose : (name, Handle.observation place id owner) ∈ sess.handles →
      ∀ k, owner ≠ some k → (sess.process.close k).Serves place id t o)
    (hentry : (name, Handle.observation place id owner) ∈ sess'.handles)
    (hends : ¬sess.EndsFor place id owner r) :
    ∃ t' o', o.Goes t t' o' ∧ sess'.process.Serves place id t' o' := by
  cases h with
  | done hdone => exact (hdone.serves hsess hserves hentry).2
  | @close on k isGenerated hh =>
    exact ⟨t, o, .same, hclose hentry k fun howner => hends ⟨k, isGenerated, howner, hh⟩⟩
  | @receive on place' id' owner s hh hs =>
    by_cases hplace : place' = place
    · subst hplace
      obtain ⟨s', hs', ho, ht⟩ := hserves
      obtain rfl := Option.some.inj (hs.symm.trans hs')
      have hs' : (sess.process.setStore place' (s.receive id').2).store? place' =
          some (s.receive id').2 := by
        rw [Process.store_setStore hs, Function.update_self]
      have ho' := Store.observer_receive (j := id') ho
      split at ho'
      · refine ⟨t, o.receive.2, .received, _, hs', ho', ?_⟩
        rw [s.tables_receive id', o.later_receive.model]
        exact ht
      · refine ⟨t, o, .same, _, hs', ho', ?_⟩
        rw [s.tables_receive id']
        exact ht
    · exact ⟨t, o, .same, hserves.setStore hs fun hsame => absurd hsame hplace⟩
  | @cancel on place' id' owner' s hh hs =>
    refine ⟨t, o, .same, hserves.setStore hs fun hplace => ⟨rfl, ?_⟩⟩
    subst hplace
    have ho := (Process.observer_eq hs id).symm.trans hserves.observer
    have hid : o.subscription ≠ id' := by
      rw [Store.subscription_of_observer ho]
      rintro rfl
      exact hends ⟨owner', hh⟩
    have ho' := Store.observer_updateObserver (j := id') (f := Observer.cancel)
      (fun o ho => o.subscription_cancel.trans ho) ho
    rw [if_neg hid] at ho'
    exact ho'.trans ho.symm
  | @invalidate on h place' id' hh hsubscription =>
    refine ⟨t, o, .same, hserves.invalidate ?_⟩
    rintro ⟨rfl, rfl⟩
    exact hends ⟨h, hh, hsubscription⟩

/-- The observer of an actor is left alone when another actor is closed. -/
theorem serves_close (hsess : sess.Orderly) (hserves : sess.process.Serves place id t o)
    (hvalid : o.isInvalidated = false)
    (hentry : (name, Handle.observation place id (some n)) ∈ sess.handles) {k : Nat}
    (hk : some n ≠ some k) : (sess.process.close k).Serves place id t o := by
  have hstarted := ((hsess.handles _ hentry).2 n rfl).2
  have hne : k ≠ n := fun hsame => hk (congrArg some hsame.symm)
  exact hserves.close fun a ha =>
    Process.not_mem_tokens hsess.process hstarted hserves.observer hvalid hne ha

/-- An observer of an actor is served through a request that does not end it. -/
theorem Effect.serves (h : Effect sess r sess') (hsess : sess.Orderly)
    (hserves : sess.process.Serves place id t o) (hvalid : o.isInvalidated = false)
    (hentry : (name, Handle.observation place id (some n)) ∈ sess'.handles)
    (hends : ¬ sess.Ends place id n r) :
    ∃ t' o', o.Goes t t' o' ∧ sess'.process.Serves place id t' o' := by
  refine h.goes hsess hserves (fun hentry k hk => serves_close hsess hserves hvalid hentry hk)
    hentry fun h => ?_
  cases r with
  | cancel | invalidate => exact hends h
  | close on =>
    obtain ⟨k, isGenerated, howner, hh⟩ := h
    obtain rfl := Option.some.inj howner
    exact hends ⟨isGenerated, hh⟩
  | _ => exact h

/-- A handle keeps the actor of its observation while what nothing refers to is dropped. -/
theorem serves_settle (hsess : sess.Orderly) (hserves : sess.process.Serves place id t o)
    (hvalid : o.isInvalidated = false)
    (hentry : (name, Handle.observation place id (some n)) ∈ sess.handles) :
    sess.settle.process.Serves place id t o := by
  obtain ⟨halive, hstarted⟩ := (hsess.handles _ hentry).2 n rfl
  refine hserves.collect hsess.process hstarted halive hvalid ?_
  exact mem_roots hentry List.mem_cons_self

end Session

end RecordStore
