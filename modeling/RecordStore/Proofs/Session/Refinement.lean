import RecordStore.Proofs.Session.Move
import RecordStore.Proofs.Session.Quiet
import RecordStore.Proofs.Session.Realization

/-!
Sessions refine sessions on plain lists. As long as all handles are on one identifier and models of
one type name have one primary key, creating, updating, deleting and listing through any number of
actors and stores answer just what they answer on a store of plain lists: row numbers, the index,
the copies of a transaction, locks and the dropping of what nothing refers to cannot be observed.
-/
namespace RecordStore.Session

variable {models : Model → Prop} {identifier : String} {sess : Session} {ref : ListSession}
  {nested : Request → Run Answer} {p p' : Process}

/-- A handle that stands for a client, on the store that is open under the identifier. -/
inductive Stands (models : Model → Prop) (identifier : String) (p : Process) :
    Handle → Client → Prop
  | store {place : Nat} (c : Configuration) (hplace : p.find? identifier = some place) :
      Stands models identifier p (.store place c) (.store c)
  | actor {n : Nat} {a : Actor} (ha : p.actors[n]? = some a) (halive : a.isAlive = true)
      (hplace : p.find? identifier = some a.store) (hm : models a.model) (isGenerated : Bool) :
      Stands models identifier p (.actor n isGenerated) (.actor a.model a.configuration isGenerated)

theorem Stands.mono (hp : p.Extends identifier p') {h : Handle} {c : Client}
    (hc : Stands models identifier p h c) : Stands models identifier p' h c := by
  cases hc with
  | store c hplace => exact .store c (hp.found _ hplace)
  | actor ha halive hplace hm isGenerated =>
    exact .actor (hp.actors _ _ ha) halive (hp.found _ hplace) hm isGenerated

/-- Dropping a handle on a store or an actor does nothing by itself. -/
theorem Stands.release_eq {h : Handle} {c : Client} (hc : Stands models identifier p h c)
    (q : Process) : h.release q = q := by
  cases hc <;> rfl

def Offers (models : Model → Prop) (identifier : String) (p : Process) (lists : Lists) : Prop :=
  match p.find? identifier with
  | none => lists = fun _ => []
  | some place => ∃ o, p.stores[place]? = some o ∧ o.store.Holds models lists

/-- A session that is one on plain lists. -/
structure Refines (models : Model → Prop) (identifier : String) (sess : Session)
    (ref : ListSession) : Prop where
  running : sess.running = []
  quiet : sess.process.Quiet
  clients : List.Forall₂ (fun h c => h.1 = c.1 ∧ Stands models identifier sess.process h.2 c.2)
    sess.handles ref.clients
  offers : Offers models identifier sess.process ref.lists

def IsHeld (identifier : String) (sess : Session) : Prop :=
  ∀ place, sess.process.find? identifier = some place →
    (∀ o, sess.process.stores[place]? = some o → o.isKept = true) ∨ sess.handles ≠ []

/-- A computation that answers what is answered on plain lists, and leaves what is left there. -/
def Answers (models : Model → Prop) (identifier : String) (x : Run Answer) (sess : Session)
    (result : Answer × ListSession) : Prop :=
  ∃ sess', outcome x sess = (.ok result.1, sess') ∧ Refines models identifier sess' result.2 ∧
    IsHeld identifier sess'

theorem Answers.of_outcome {x y : Run Answer} {sess sess' : Session} {result : Answer × ListSession}
    (h : Answers models identifier x sess result) (hy : outcome y sess' = outcome x sess) :
    Answers models identifier y sess' result := by
  obtain ⟨left, houtcome, hleft⟩ := h
  exact ⟨left, hy.trans houtcome, hleft⟩

theorem lookup_forall₂ {α β : Type} {R : α → β → Prop} {l : List (String × α)}
    {l' : List (String × β)} (h : List.Forall₂ (fun a b => a.1 = b.1 ∧ R a.2 b.2) l l')
    (name : String) :
    (l.lookup name = none ∧ l'.lookup name = none) ∨
      ∃ a b, l.lookup name = some a ∧ l'.lookup name = some b ∧ R a b := by
  induction h with
  | nil => exact .inl ⟨rfl, rfl⟩
  | @cons a b l l' hab _ ih =>
    rw [List.lookup_cons, List.lookup_cons, ← hab.1]
    cases name == a.1 with
    | false => exact ih
    | true => exact .inr ⟨a.2, b.2, rfl, rfl, hab.2⟩

/-- Naming a handle forgets the older one of that name, and nothing comes of it. -/
theorem outcome_bind {name : String} {h : Handle}
    (hold : ∀ old, sess.handle? name = some old → ∀ q, old.release q = q) :
    outcome (bind name h) sess =
      (.ok (), { sess with handles := sess.handles.filter (·.1 != name) ++ [(name, h)] }) := by
  have hreleased : sess.released name = sess.process := by
    unfold released
    split
    next old hlookup => exact hold old hlookup sess.process
    next => rfl
  rw [outcome_bind_eq, bound, hreleased]

/-- Binding a handle that stands for a client is binding the client. -/
theorem refines_bind (h : Refines models identifier sess ref) {handle : Handle} {c : Client}
    (hc : Stands models identifier sess.process handle c) (name : String) :
    ∃ sess', outcome (bind name handle) sess = (.ok (), sess') ∧
      Refines models identifier sess' (ref.bind name c) ∧ IsHeld identifier sess' := by
  have hold (old : Handle) (hlookup : sess.handle? name = some old) (q : Process) :
      old.release q = q := by
    rcases lookup_forall₂ h.clients name with ⟨hnone, -⟩ | ⟨old', c', hold', -, hc'⟩
    · exact nomatch hnone.symm.trans hlookup
    · obtain rfl : old = old' := Option.some.inj (hlookup.symm.trans hold')
      exact hc'.release_eq q
  refine ⟨_, outcome_bind hold, ⟨h.running, h.quiet, ?_, h.offers⟩, fun _ _ => .inr (by simp)⟩
  have hkept : List.Forall₂ (fun h c => h.1 = c.1 ∧ Stands models identifier sess.process h.2 c.2)
      (sess.handles.filter (·.1 != name)) (ref.clients.filter (·.1 != name)) :=
    List.rel_filter (fun _ _ hentry => by simp only [hentry.1]) h.clients
  exact List.rel_append hkept (.cons ⟨rfl, hc⟩ .nil)

/-- After a store was opened everything is as before, and the store is there. -/
theorem refines_opened (h : Refines models identifier sess ref) {c : Configuration}
    (hc : c.identifier = identifier) {place : Nat} (hopened : sess.process.Opened c place p') :
    Refines models identifier { sess with process := p' } ref := by
  subst hc
  refine ⟨h.running, hopened.quiet h.quiet, ?_, ?_⟩
  · exact h.clients.imp fun handle client hc => ⟨hc.1, hc.2.mono hopened.earlier⟩
  · obtain ⟨o', ho', -, hstore⟩ := hopened.store
    have hoffers := h.offers
    unfold Offers at hoffers ⊢
    simp only [hopened.found]
    refine ⟨o', ho', ?_⟩
    rcases hstore with ⟨hnone, hempty⟩ | ⟨o, hfound, ho, hsame⟩
    · rw [hnone] at hoffers
      rw [hoffers, hempty]
      exact Store.holds_empty models c.identifier
    · rw [hfound] at hoffers
      obtain ⟨o₀, ho₀, hholds⟩ := hoffers
      obtain rfl : o = o₀ := Option.some.inj (ho.symm.trans ho₀)
      rw [hsame]
      exact hholds

/-- Changing tables and lists alike keeps the session a refinement. -/
theorem refines_setStore (h : Refines models identifier sess ref) {place : Nat} {o : OpenStore}
    (hplace : sess.process.find? identifier = some place)
    (ho : sess.process.stores[place]? = some o) {s' : Store}
    (hidentifier : s'.identifier = o.store.identifier) {lists : Lists}
    (hs' : s'.Holds models lists) :
    Refines models identifier { sess with process := sess.process.setStore place s' }
      { ref with lists := lists } := by
  have hfind : (sess.process.setStore place s').find? identifier =
      sess.process.find? identifier := Process.find_setStore ho hidentifier
  refine ⟨h.running, h.quiet.updateStore fun _ => rfl, ?_, ?_⟩
  · have hextends : sess.process.Extends identifier (sess.process.setStore place s') :=
      ⟨fun _ hfound => hfind.trans hfound, fun _ _ ha => ha⟩
    exact h.clients.imp fun handle client hc => ⟨hc.1, hc.2.mono hextends⟩
  · unfold Offers
    simp only [hfind, hplace]
    refine ⟨{ o with store := s' }, ?_, hs'⟩
    simp [Process.setStore, Process.updateStore, ho]

/-- Changing its tables leaves a store open and held. -/
theorem isHeld_setStore (h : IsHeld identifier sess) {place : Nat} {o : OpenStore}
    (hplace : sess.process.find? identifier = some place)
    (ho : sess.process.stores[place]? = some o) {s' : Store}
    (hidentifier : s'.identifier = o.store.identifier) :
    IsHeld identifier { sess with process := sess.process.setStore place s' } := by
  have hfind : (sess.process.setStore place s').find? identifier =
      sess.process.find? identifier := Process.find_setStore ho hidentifier
  intro place' hplace'
  have hplace' : (sess.process.setStore place s').find? identifier = some place' := hplace'
  rw [hfind] at hplace'
  obtain rfl : place = place' := Option.some.inj (hplace.symm.trans hplace')
  refine (h place hplace).imp_left fun hkept o' ho' => ?_
  have ho' : (sess.process.setStore place s').stores[place]? = some o' := ho'
  simp only [Process.setStore, Process.updateStore, List.getElem?_modify_eq, ho,
    Option.map_eq_map, Option.map_some, Option.some.injEq] at ho'
  rw [← ho']
  exact hkept o ho

/-- An operation that was just issued through an actor. -/
structure IssuedThrough (op : StoreOperation) (n : Nat) (a : Actor) : Prop where
  stage : op.stage = .start
  actor : op.actor = some n
  model : op.model = a.model
  store : op.store = a.store
  configuration : op.configuration = a.configuration

theorem isFree_of_quiet (hp : p.Quiet) {op : StoreOperation} {n : Nat} {a : Actor}
    (hop : IssuedThrough op n a) (ha : p.actors[n]? = some a) : IsFree op p := by
  obtain ⟨hserial, hclosed, -⟩ := hp.actors a (List.mem_of_getElem? ha)
  unfold IsFree
  rw [hop.actor]
  exact ⟨a, ha, hserial, hclosed⟩

theorem Offers.store {lists : Lists} (h : Offers models identifier p lists) {place : Nat}
    (hplace : p.find? identifier = some place) :
    ∃ o, p.stores[place]? = some o ∧ o.store.Holds models lists := by
  unfold Offers at h
  rwa [hplace] at h

/-- An operation that may write is done at once and leaves what it leaves of its store. -/
theorem refines_leaves (h : Refines models identifier sess ref) (hheld : IsHeld identifier sess)
    {op : StoreOperation} (hstart : op.stage = .start) (hwrite : op.work.isWrite = true)
    (hreadOnly : op.configuration.readOnly = false) (hfree : IsFree op sess.process)
    (hplace : sess.process.find? identifier = some op.store) {o : OpenStore}
    (ho : sess.process.stores[op.store]? = some o) {a : Answer} {s' : Store} {lists : Lists}
    (hleaves : Leaves nested op o.store a s') (hidentifier : s'.identifier = o.store.identifier)
    (hs' : s'.Holds models lists) :
    ∃ sess', outcome (advance nested op) sess = (.ok (.done a), sess') ∧
      Refines models identifier sess' { ref with lists := lists } ∧ IsHeld identifier sess' := by
  have hwriter := h.quiet.stores o (List.mem_of_getElem? ho)
  exact ⟨_, outcome_advance_write hstart hwrite hreadOnly hfree ho hwriter hleaves,
    refines_setStore h hplace ho hidentifier hs', isHeld_setStore hheld hplace ho hidentifier⟩

/-- An operation that realizes a call is done at once and leaves what the call leaves. -/
theorem refines_call (hkey : OneKey models) (h : Refines models identifier sess ref)
    (hheld : IsHeld identifier sess) {op : StoreOperation} {n : Nat} {a : Actor}
    (hop : IssuedThrough op n a) (ha : sess.process.actors[n]? = some a)
    (hplace : sess.process.find? identifier = some a.store) (hm : models a.model)
    {call : ListCall} (hrealizes : Realizes a.model op.work call) :
    ∃ sess', outcome (advance nested op) sess =
        (.ok (.done (ref.call a.model a.configuration (.ok call)).1), sess') ∧
      Refines models identifier sess' (ref.call a.model a.configuration (.ok call)).2 ∧
      IsHeld identifier sess' := by
  have hfree := isFree_of_quiet h.quiet hop ha
  have hwrite := hrealizes.isCall.isWrite
  obtain ⟨o, ho, hholds⟩ := h.offers.store hplace
  rw [← hop.store] at ho hplace
  cases hc : a.configuration.readOnly with
  | true =>
    have hrun : call.run a.configuration (ref.lists a.model.typeName) =
        (call.failure (.readOnly a.configuration.identifier), ref.lists a.model.typeName) := by
      rw [ListCall.run, if_pos hc]
    have hsame : (ref.call a.model a.configuration (.ok call)).2 = ref := by
      simp only [ListSession.call, hrun, Function.update_eq_self]
    refine ⟨sess, ?_, hsame.symm ▸ h, hheld⟩
    have hreadOnly : op.configuration.readOnly = true := by rw [hop.configuration, hc]
    rw [outcome_advance_readOnly hop.stage hwrite hreadOnly hfree, hrealizes.failure op rfl,
      hop.configuration]
    simp only [ListSession.call, hrun]
  | false =>
    obtain ⟨α, body, answer, hperform, hanswer, hidentifier, hs'⟩ :=
      hrealizes.transact hkey hm rfl hop.model hholds hc nested
    have hreadOnly : op.configuration.readOnly = false := by rw [hop.configuration, hc]
    have hleaves := leaves_of_call hperform o.store
    rw [hanswer] at hleaves
    exact refines_leaves h hheld hop.stage hwrite hreadOnly hfree hplace ho hleaves hidentifier hs'

end RecordStore.Session
