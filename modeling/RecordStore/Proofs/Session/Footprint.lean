import RecordStore.Proofs.Session.Course

/-!
What a request leaves as it is. A request that opens nothing changes the tables of one store at
most, and only if it writes; the stores and actors that there are stay what they were opened as, and
the handles on them are the ones that there were.
-/
namespace RecordStore

def OpenStore.card (o : OpenStore) : String × Bool × Bool :=
  (o.store.identifier, o.isKept, o.isAlive)

def Actor.card (a : Actor) : Nat × Configuration × Bool := (a.store, a.configuration, a.isAlive)

namespace Store

variable (s : Store)

theorem identifier_observe (m : Model) (isReachable : Bool) :
    (s.observe m isReachable).2.identifier = s.identifier := by
  unfold observe
  split <;> rfl

theorem identifier_receive (id : Nat) : (s.receive id).2.identifier = s.identifier := by
  unfold receive
  split <;> rfl

theorem identifier_invalidate (id : Nat) : (s.invalidate id).2.identifier = s.identifier := by
  unfold invalidate
  split <;> rfl

end Store

namespace Process

variable {reach reach' : Nat → Prop} {p p' p'' : Process} {place n id : Nat} {s s' : Store}

def tables? (p : Process) (place : Nat) : Option Tables := (p.store? place).map Store.tables

/-- What a process can become if nothing is opened or dropped and only the tables of the stores
that are reached change. -/
structure ModifiesOnly (reach : Nat → Prop) (p p' : Process) : Prop where
  stores : p'.stores.map OpenStore.card = p.stores.map OpenStore.card
  actors : p'.actors.map Actor.card = p.actors.map Actor.card
  tables : ∀ k, ¬reach k → p'.tables? k = p.tables? k

theorem modifiesOnly_refl (p : Process) : p.ModifiesOnly reach p := ⟨rfl, rfl, fun _ _ => rfl⟩

theorem ModifiesOnly.trans (h : p.ModifiesOnly reach p') (h' : p'.ModifiesOnly reach p'') :
    p.ModifiesOnly reach p'' :=
  ⟨h'.stores.trans h.stores, h'.actors.trans h.actors,
    fun k hk => (h'.tables k hk).trans (h.tables k hk)⟩

theorem ModifiesOnly.mono (h : p.ModifiesOnly reach p') (hreach : ∀ k, reach k → reach' k) :
    p.ModifiesOnly reach' p' :=
  ⟨h.stores, h.actors, fun k hk => h.tables k (hk ∘ hreach k)⟩

theorem modifiesOnly_updateStore {f : OpenStore → OpenStore}
    (hcard : ∀ o, p.stores[place]? = some o → (f o).card = o.card)
    (htables : ¬reach place → ∀ o, p.stores[place]? = some o →
      (f o).store.tables = o.store.tables) :
    p.ModifiesOnly reach (p.updateStore place f) := by
  refine ⟨map_modify_eq hcard, rfl, fun k hk => ?_⟩
  rw [tables?, tables?, store?, store?, updateStore, List.getElem?_modify]
  cases ho : p.stores[k]? with
  | none => rfl
  | some o =>
    by_cases hplace : place = k
    · subst hplace
      simp [htables hk o ho]
    · simp [hplace]

theorem modifiesOnly_updateActor {f : Actor → Actor} (hcard : ∀ a, (f a).card = a.card) :
    p.ModifiesOnly reach (p.updateActor n f) :=
  ⟨rfl, map_modify_eq fun a _ => hcard a, fun _ _ => rfl⟩

/-- Giving other tables to a store within reach changes nothing else. -/
theorem modifiesOnly_setStore (hs : p.store? place = some s)
    (hidentifier : s'.identifier = s.identifier)
    (htables : ¬reach place → s'.tables = s.tables) :
    p.ModifiesOnly reach (p.setStore place s') := by
  have hsame {o : OpenStore} (ho : p.stores[place]? = some o) : o.store = s := by
    rw [store?, ho] at hs
    exact Option.some.inj hs
  refine modifiesOnly_updateStore (fun o ho => ?_) fun hreach o ho => ?_
  · simp only [OpenStore.card, hidentifier, hsame ho]
  · rw [hsame ho]
    exact htables hreach

theorem modifiesOnly_invalidate (p : Process) (place id : Nat) :
    p.ModifiesOnly reach (p.invalidate place id).2 := by
  unfold invalidate
  split
  · exact p.modifiesOnly_refl
  · next s hs =>
    exact modifiesOnly_setStore hs (s.identifier_invalidate id) fun _ => s.tables_invalidate id

theorem modifiesOnly_invalidateAll (p : Process) (place : Nat) (ids : List Nat) :
    p.ModifiesOnly reach (p.invalidateAll place ids) :=
  List.foldlRecOn ids _ p.modifiesOnly_refl fun q hq id _ =>
    hq.trans (q.modifiesOnly_invalidate place id)

theorem modifiesOnly_close (p : Process) (n : Nat) : p.ModifiesOnly reach (p.close n) := by
  unfold close
  split
  · exact p.modifiesOnly_refl
  · split
    · exact p.modifiesOnly_refl
    · refine ModifiesOnly.trans ?_ (modifiesOnly_invalidateAll _ _ _)
      exact modifiesOnly_updateActor fun _ => rfl

theorem modifiesOnly_noted (p : Process) (actor : Option Nat) (id : Nat) :
    p.ModifiesOnly reach (Session.noted actor id p) := by
  cases actor with
  | none => exact p.modifiesOnly_refl
  | some n => exact modifiesOnly_updateActor fun _ => rfl

end Process

namespace StoreOperation

variable {reach : Nat → Prop} (op : StoreOperation) (p : Process)

theorem modifiesOnly_leaveActor : p.ModifiesOnly reach (op.leaveActor p) := by
  unfold leaveActor
  split
  · exact Process.modifiesOnly_updateActor fun _ => rfl
  · exact p.modifiesOnly_refl

theorem modifiesOnly_leaveWriter : p.ModifiesOnly reach (op.leaveWriter p) :=
  Process.modifiesOnly_updateStore (fun _ _ => rfl) fun _ _ _ => rfl

theorem modifiesOnly_leave : p.ModifiesOnly reach (op.leaveActor (op.leaveWriter p)) :=
  (op.modifiesOnly_leaveWriter p).trans (op.modifiesOnly_leaveActor _)

theorem modifiesOnly_abandon : p.ModifiesOnly reach (op.abandon p) := by
  unfold abandon
  split
  · exact p.modifiesOnly_refl
  · exact op.modifiesOnly_leaveActor p
  · exact op.modifiesOnly_leave p

end StoreOperation

theorem Handle.modifiesOnly_release {reach : Nat → Prop} (h : Handle) (p : Process) :
    p.ModifiesOnly reach (h.release p) := by
  cases h with
  | observation place id owner => exact p.modifiesOnly_invalidate place id
  | operation op => exact op.modifiesOnly_abandon p
  | _ => exact p.modifiesOnly_refl

/-- The place of the store that a handle keeps open, with the configuration that it was opened by.
An observation that an actor started keeps what the actor was opened on. -/
def Handle.keeps? (p : Process) : Handle → Option (Nat × Configuration)
  | .store place c => some (place, c)
  | .actor n _ | .observation _ _ (some n) =>
    (p.actors[n]?).map fun a => (a.store, a.configuration)
  | _ => none

def Request.opens? : Request → Option Configuration
  | .openStore _ c => some c
  | .openActor _ m c isGenerated => if m.offers isGenerated then some c else none
  | r => r.member?.map fun _ => {}

namespace Session

variable {reach reach' : Nat → Prop} {sess sess' sess'' : Session} {op : StoreOperation}
  {name on : String} {h : Handle} {n : Nat} {a : Actor} {r : Request} {w : Work}

/-- What a session can become if nothing is opened in it and only the tables of the stores that are
reached change. -/
structure ModifiesOnly (reach : Nat → Prop) (sess sess' : Session) : Prop where
  process : sess.process.ModifiesOnly reach sess'.process
  openers : ∀ entry ∈ sess'.handles, entry.2.isOpener = true →
    ∃ name, (name, entry.2) ∈ sess.handles
  names : (sess.handles.map Prod.fst).Nodup → (sess'.handles.map Prod.fst).Nodup

theorem modifiesOnly_of_process {p : Process} {running : List Root} {ticket : Nat}
    (hp : sess.process.ModifiesOnly reach p) :
    sess.ModifiesOnly reach ⟨p, sess.handles, running, ticket⟩ :=
  ⟨hp, fun entry hentry _ => ⟨entry.1, hentry⟩, id⟩

theorem modifiesOnly_refl (sess : Session) : sess.ModifiesOnly reach sess :=
  modifiesOnly_of_process sess.process.modifiesOnly_refl

theorem modifiesOnly_ticketed (sess : Session) : sess.ModifiesOnly reach sess.ticketed :=
  modifiesOnly_of_process sess.process.modifiesOnly_refl

theorem ModifiesOnly.trans (hsess : sess.ModifiesOnly reach sess')
    (hsess' : sess'.ModifiesOnly reach sess'') : sess.ModifiesOnly reach sess'' := by
  refine ⟨hsess.process.trans hsess'.process, fun entry hentry hopener => ?_,
    hsess'.names ∘ hsess.names⟩
  obtain ⟨name, hname⟩ := hsess'.openers entry hentry hopener
  exact hsess.openers (name, entry.2) hname hopener

theorem ModifiesOnly.mono (h : sess.ModifiesOnly reach sess')
    (hreach : ∀ k, reach k → reach' k) : sess.ModifiesOnly reach' sess' :=
  ⟨h.process.mono hreach, h.openers, h.names⟩

theorem modifiesOnly_released (sess : Session) (name : String) :
    sess.process.ModifiesOnly reach (sess.released name) := by
  unfold released
  split
  · next old _ => exact old.modifiesOnly_release sess.process
  · exact sess.process.modifiesOnly_refl

theorem nodup_filter (hnames : (sess.handles.map Prod.fst).Nodup) (name : String) :
    ((sess.handles.filter (·.1 != name)).map Prod.fst).Nodup :=
  hnames.sublist (List.filter_sublist.map _)

theorem nodup_bound (hnames : (sess.handles.map Prod.fst).Nodup) (name : String) (h : Handle) :
    ((sess.bound name h).handles.map Prod.fst).Nodup := by
  show ((sess.handles.filter (·.1 != name) ++ [(name, h)]).map Prod.fst).Nodup
  rw [List.map_append, List.map_cons, List.map_nil, List.nodup_append]
  refine ⟨nodup_filter hnames name, List.nodup_singleton name, fun a ha b hb => ?_⟩
  obtain ⟨entry, hentry, rfl⟩ := List.mem_map.mp ha
  obtain rfl := List.mem_singleton.mp hb
  simpa using (List.mem_filter.mp hentry).2

theorem modifiesOnly_unbound (sess : Session) (name : String) :
    sess.ModifiesOnly reach (sess.unbound name) :=
  ⟨sess.modifiesOnly_released name,
    fun entry hentry _ => ⟨entry.1, (List.mem_filter.mp hentry).1⟩,
    fun hnames => nodup_filter hnames name⟩

/-- Naming a handle that is none of those that open, or that there is already. -/
theorem modifiesOnly_bound (name : String)
    (hh : h.isOpener = true → ∃ old, (old, h) ∈ sess.handles) :
    sess.ModifiesOnly reach (sess.bound name h) := by
  refine ⟨sess.modifiesOnly_released name, fun entry hentry hopener => ?_,
    fun hnames => nodup_bound hnames name h⟩
  rcases List.mem_append.mp hentry with hentry | hentry
  · exact ⟨entry.1, (List.mem_filter.mp hentry).1⟩
  · obtain rfl := List.mem_singleton.mp hentry
    exact hh hopener

theorem modifiesOnly_named (name : String) (hh : h.isOpener = false) :
    sess.ModifiesOnly reach (sess.bound name h) :=
  modifiesOnly_bound name fun hopener => absurd (hh.symm.trans hopener) Bool.false_ne_true

/-- An operation changes the tables of its store at most, and only if it writes. -/
theorem Performed.modifiesOnly (h : Performed op sess sess') :
    sess.ModifiesOnly (fun place => op.work.isWrite = true ∧ place = op.store) sess' := by
  cases h with
  | nothing => exact sess.modifiesOnly_refl
  | listed name records => exact modifiesOnly_named name rfl
  | @observed s s' isReachable id as hs hobserve hactor =>
    have hidentifier := s.identifier_observe op.model isReachable
    have htables := s.tables_observe op.model isReachable
    rw [hobserve] at hidentifier htables
    refine (modifiesOnly_of_process (.trans ?_ (Process.modifiesOnly_noted _ op.actor id))).trans
      (modifiesOnly_named as rfl)
    exact Process.modifiesOnly_setStore hs hidentifier fun _ => htables
  | committed hwrite hs hnames =>
    refine modifiesOnly_of_process (Process.modifiesOnly_setStore hs rfl fun hnot => ?_)
    exact absurd ⟨hwrite, rfl⟩ hnot

/-- A handle under a name keeps the store at a place open. -/
def Keeps (sess : Session) (name : String) (place : Nat) (c : Configuration) : Prop :=
  ∃ h, sess.handle? name = some h ∧ h.keeps? sess.process = some (place, c)

def WritesAt (sess : Session) (r : Request) (place : Nat) : Prop :=
  ∃ on c, r.writer? = some on ∧ sess.Keeps on place c

theorem keeps_of_actor {isGenerated : Bool} (hh : sess.handle? on = some (.actor n isGenerated))
    (ha : sess.process.actors[n]? = some a) : sess.Keeps on a.store a.configuration :=
  ⟨_, hh, by rw [Handle.keeps?, ha]; rfl⟩

theorem Issues.keeps (h : sess.Issues on op) : sess.Keeps on op.store op.configuration := by
  cases h with
  | store m w hh => exact ⟨_, hh, rfl⟩
  | actor w hh ha => exact keeps_of_actor hh ha

/-- What is done at once, if it opens nothing, writes to no store. -/
theorem Immediate.modifiesOnly (h : Immediate sess r sess') (hopens : r.opens? = none) :
    sess.ModifiesOnly reach sess' := by
  cases h with
  | nothing => exact sess.modifiesOnly_refl
  | openedStore => cases hopens
  | openedActor as hoffers =>
    rw [Request.opens?, if_pos hoffers] at hopens
    cases hopens
  | named name hproper hobserved hopener => exact modifiesOnly_bound name hopener
  | dropped on => exact sess.modifiesOnly_unbound on
  | closed hh => exact modifiesOnly_of_process (sess.process.modifiesOnly_close _)
  | @received on place id owner s hh hs =>
    exact modifiesOnly_of_process (Process.modifiesOnly_setStore hs (s.identifier_receive id)
      fun _ => s.tables_receive id)
  | cancelled hh hs =>
    exact modifiesOnly_of_process (Process.modifiesOnly_setStore hs rfl fun _ => rfl)
  | invalidated hh => exact modifiesOnly_of_process (sess.process.modifiesOnly_invalidate _ _)

theorem opens_member {m : Model} {work : Except Answer Work}
    (hmember : r.member? = some (m, work)) : r.opens? = some {} := by
  cases r with
  | openStore | openActor => cases hmember
  | _ => simp only [Request.opens?, hmember, Option.map_some]

/-- A request that opens nothing leaves all as it was but the tables that it writes. -/
theorem modifiesOnly_runWith (nested : Request → Run Answer) (hsess : sess.Orderly)
    (hr : r.isComplete = true) (hopens : r.opens? = none) :
    sess.ModifiesOnly (sess.WritesAt r) (outcome (runWith nested r) sess).2 := by
  rw [runWith_eq nested hr, Outcome.bind_eq]
  cases hmember : r.member? with
  | none =>
    have hprepares := prepares sess hr hmember
    generalize outcome (prepare r) sess = result at hprepares
    cases hprepares with
    | answer answer => exact sess.modifiesOnly_refl
    | immediate => exact (immediate hsess r).modifiesOnly hopens
    | @operation on op hissues hwork hwriter =>
      have hop : Issued op sess.ticketed.process := hissues.issued hsess hwork
      refine sess.modifiesOnly_ticketed.trans
        ((performed_conclude nested r hsess.ticketed hop).modifiesOnly.mono ?_)
      rintro place ⟨hwrite, rfl⟩
      rw [hwrite] at hwriter
      exact ⟨on, op.configuration, hwriter, hissues.keeps⟩
  | some member =>
    -- a request of a model itself always opens the default store
    cases (opens_member hmember).symm.trans hopens

/-- A request of a model itself opens an actor first, and goes through that if its arguments make
work. -/
theorem modifiesOnly_member (nested : Request → Run Answer) (hsess : sess.Orderly) {m : Model}
    {work : Except Answer Work} (hmember : r.member? = some (m, work)) :
    ModifiesOnly (fun place => ∃ w, work = .ok w ∧ w.isWrite = true ∧
        place = (sess.process.openStore {}).1)
      { sess with process := (sess.process.openActor m {}).2 }
      (outcome (runWith nested r) sess).2 := by
  have hopened : Move sess { sess with process := (sess.process.openActor m {}).2 } :=
    .openActor m {}
  obtain ⟨-, -, hwork, -⟩ := prepare_member hmember
  cases work with
  | error answer =>
    rw [outcome_runWith_refused nested hmember]
    exact modifiesOnly_refl _
  | ok w =>
    rw [outcome_runWith_member nested hmember]
    have hperformed := performed_conclude nested r (hopened.orderly hsess).1.ticketed
      (issued_memberOf hsess hwork)
    exact (modifiesOnly_ticketed _).trans
      (hperformed.modifiesOnly.mono fun place hplace => ⟨w, rfl, hplace⟩)

end Session

end RecordStore
