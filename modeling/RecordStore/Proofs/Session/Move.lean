import RecordStore.Proofs.Session.Later
import RecordStore.Session.Run
import Mathlib.Logic.Relation

/-!
The moves of a session. In a session in which nothing waits a request opens stores and actors, names
handles and drops them, and starts observers; after any of these there is at most one commit, or it
closes an actor or takes from an observer or ends it. Each move leaves a session in which nothing
waits and every handle is on something that is there.
-/
namespace RecordStore

def Handle.observed? : Handle → Option (Nat × Nat)
  | .observation place id _ => some (place, id)
  | _ => none

def Handle.IsProper (p : Process) : Handle → Prop
  | .store place _ => place < p.stores.length
  | .actor n _ => p.IsAlive n
  | .observation place id owner =>
    (∃ o, p.observer? place id = some o) ∧ ∀ n, owner = some n → p.IsAlive n ∧ p.Started n place id
  | .token .. | .results .. => True
  | .operation _ | .spent => False

/-- What is kept is still there for the handles on it. -/
theorem Handle.IsProper.later {p p' : Process} {kept : Nat → Prop} {h : Handle}
    (hh : h.IsProper p) (hp : p.Later kept p') (hkept : ∀ n, Root.actor n ∈ h.roots → kept n) :
    h.IsProper p' := by
  cases h with
  | store place c => exact Nat.lt_of_lt_of_le hh hp.places
  | token | results => trivial
  | actor n isGenerated => exact hp.alive n (hkept n List.mem_cons_self) hh
  | observation place id owner =>
    obtain ⟨⟨o, ho⟩, howner⟩ := hh
    obtain ⟨o', ho', -⟩ := hp.observer place id o ho
    refine ⟨⟨o', ho'⟩, fun n hn => ?_⟩
    subst hn
    obtain ⟨halive, hstarted⟩ := howner n rfl
    exact ⟨hp.alive n (hkept n List.mem_cons_self) halive, hp.started n place id hstarted⟩
  | operation | spent => exact hh.elim

theorem Handle.leads_release {p : Process} {h : Handle} (hp : p.Orderly) (hh : h.IsProper p) :
    p.Leads (h.release p) := by
  cases h with
  | store | token | results | actor | spent => exact Process.later_refl hp
  | observation place id owner => exact Process.later_invalidate hp place id
  | operation op => exact hh.elim

namespace Session

variable {sess sess' sess'' : Session} {name : String} {h : Handle}

/-- A session in which nothing waits, with handles on what is there. No observer has two handles. -/
structure Orderly (sess : Session) : Prop where
  running : sess.running = []
  process : sess.process.Orderly
  handles : ∀ entry ∈ sess.handles, entry.2.IsProper sess.process
  unique : ∀ entry ∈ sess.handles, ∀ entry' ∈ sess.handles, ∀ observed,
    entry.2.observed? = some observed → entry'.2.observed? = some observed → entry.1 = entry'.1

theorem mem_of_handle (hh : sess.handle? name = some h) : (name, h) ∈ sess.handles :=
  mem_of_lookup hh

theorem Orderly.isProper (hsess : sess.Orderly) (hh : sess.handle? name = some h) :
    h.IsProper sess.process := hsess.handles _ (mem_of_handle hh)

def released (sess : Session) (name : String) : Process :=
  match sess.handle? name with
  | some old => old.release sess.process
  | none => sess.process

/-- A session with a new handle under a name. -/
def bound (sess : Session) (name : String) (h : Handle) : Session :=
  { sess with
    handles := sess.handles.filter (·.1 != name) ++ [(name, h)]
    process := sess.released name }

def unbound (sess : Session) (name : String) : Session :=
  { sess with
    handles := sess.handles.filter (·.1 != name)
    process := sess.released name }

theorem outcome_bind_eq (sess : Session) (name : String) (h : Handle) :
    outcome (bind name h) sess = (.ok (), sess.bound name h) := by
  simp only [bind, take, bound, released, Outcome.bind_eq, Outcome.get_eq, Outcome.modify_eq,
    Outcome.pure_eq]
  cases sess.handle? name <;> rfl

theorem outcome_unbind_eq (sess : Session) (name : String) :
    outcome (unbind name) sess = (.ok (sess.handle? name).isSome, sess.unbound name) := by
  simp only [unbind, take, unbound, released, Outcome.bind_eq, Outcome.get_eq, Outcome.modify_eq,
    Outcome.pure_eq]
  cases sess.handle? name <;> rfl

/-- What is left of a process when its actor, if it has one, notes a new subscription. -/
def noted (actor : Option Nat) (id : Nat) (p : Process) : Process :=
  match actor with
  | some n => p.remember n id
  | none => p

def observing (sess : Session) (place : Nat) (s' : Store) (id : Nat) (actor : Option Nat)
    (as : String) : Session :=
  ({ sess with process := noted actor id (sess.process.setStore place s') } : Session).bound as
    (.observation place id actor)

/-- What a session can do that does not change a table or what an observer has received. -/
inductive Move (sess : Session) : Session → Prop
  | ticket : Move sess { sess with nextTicket := sess.nextTicket + 1 }
  | openStore (c : Configuration) :
      Move sess { sess with process := (sess.process.openStore c).2 }
  | openActor (m : Model) (c : Configuration) :
      Move sess { sess with process := (sess.process.openActor m c).2 }
  | bind (name : String) {h : Handle} (hh : h.IsProper sess.process)
      (hobserved : h.observed? = none) : Move sess (sess.bound name h)
  | unbind (name : String) : Move sess (sess.unbound name)
  | observe {place : Nat} {m : Model} {isReachable : Bool} {actor : Option Nat} {s s' : Store}
      {id : Nat} (as : String) (hs : sess.process.store? place = some s)
      (hobserve : s.observe m isReachable = (.ok id, s'))
      (hactor : ∀ n, actor = some n → ∃ a, sess.process.actors[n]? = some a ∧ a.store = place ∧
        a.isAlive = true ∧ a.isClosed = false) :
      Move sess (sess.observing place s' id actor as)

abbrev Moves : Session → Session → Prop := Relation.ReflTransGen Move

/-- What an operation can do to a session. -/
inductive Done (sess : Session) : Session → Prop
  | moves {sess' : Session} (hmoves : Moves sess sess') : Done sess sess'
  | commit {sess' : Session} {place : Nat} {s : Store} {t : Transaction}
      (hmoves : Moves sess sess') (hs : sess'.process.store? place = some s)
      (hnames : (t.staged.map Prod.fst).Nodup) :
      Done sess { sess' with process := sess'.process.setStore place (s.commit t) }

inductive Effect (sess : Session) : Request → Session → Prop
  | done {r : Request} {sess' : Session} (hdone : Done sess sess') : Effect sess r sess'
  | close {on : String} {n : Nat} {isGenerated : Bool}
      (hh : sess.handle? on = some (.actor n isGenerated)) :
      Effect sess (.close on) { sess with process := sess.process.close n }
  | receive {on : String} {place id : Nat} {actor : Option Nat} {s : Store}
      (hh : sess.handle? on = some (.observation place id actor))
      (hs : sess.process.store? place = some s) :
      Effect sess (.receive on)
        { sess with process := sess.process.setStore place (s.receive id).2 }
  | cancel {on : String} {place id : Nat} {actor : Option Nat} {s : Store}
      (hh : sess.handle? on = some (.observation place id actor))
      (hs : sess.process.store? place = some s) :
      Effect sess (.cancel on) { sess with process := sess.process.setStore place (s.cancel id) }
  | invalidate {on : String} {h : Handle} {place id : Nat} (hh : sess.handle? on = some h)
      (hsubscription : subscription? h = some (place, id)) :
      Effect sess (.invalidate on)
        { sess with process := (sess.process.invalidate place id).2 }

theorem Orderly.of_leads (hsess : sess.Orderly) {p' : Process} (hp : sess.process.Leads p') :
    Orderly { sess with process := p' } :=
  ⟨hsess.running, hp.orderly,
    fun entry hentry => (hsess.handles entry hentry).later hp fun _ _ => trivial, hsess.unique⟩

theorem leads_released (hsess : sess.Orderly) (name : String) :
    sess.process.Leads (sess.released name) := by
  unfold released
  split
  · next old hold =>
    exact Handle.leads_release hsess.process (hsess.isProper hold)
  · exact Process.later_refl hsess.process

theorem orderly_unbound (hsess : sess.Orderly) (name : String) : (sess.unbound name).Orderly := by
  have hreleased := hsess.of_leads (leads_released hsess name)
  refine ⟨hsess.running, hreleased.process, fun entry hentry => ?_, fun entry hentry entry' => ?_⟩
  · exact hreleased.handles entry (List.mem_filter.mp hentry).1
  · exact fun hentry' => hsess.unique entry (List.mem_filter.mp hentry).1 entry'
      (List.mem_filter.mp hentry').1

/-- Naming a handle keeps a session orderly, if what it observes has no other name. -/
theorem orderly_bound (hsess : sess.Orderly) (name : String) (hh : h.IsProper sess.process)
    (hnew : ∀ entry ∈ sess.handles, ∀ observed, h.observed? = some observed →
      entry.2.observed? ≠ some observed) : (sess.bound name h).Orderly := by
  have hunbound := orderly_unbound hsess name
  have hh' : h.IsProper (sess.released name) :=
    hh.later (leads_released hsess name) fun _ _ => trivial
  refine ⟨hunbound.running, hunbound.process, fun entry hentry => ?_,
    fun entry hentry entry' hentry' observed hobserved hobserved' => ?_⟩
  · rcases List.mem_append.mp hentry with hentry | hentry
    · exact hunbound.handles entry hentry
    · obtain rfl := List.mem_singleton.mp hentry
      exact hh'
  · rcases List.mem_append.mp hentry with hentry | hentry <;>
      rcases List.mem_append.mp hentry' with hentry' | hentry'
    · exact hunbound.unique entry hentry entry' hentry' observed hobserved hobserved'
    · obtain rfl := List.mem_singleton.mp hentry'
      exact absurd hobserved (hnew entry (List.mem_filter.mp hentry).1 observed hobserved')
    · obtain rfl := List.mem_singleton.mp hentry
      exact absurd hobserved' (hnew entry' (List.mem_filter.mp hentry').1 observed hobserved)
    · rw [List.mem_singleton.mp hentry, List.mem_singleton.mp hentry']

section Observing

variable {place id : Nat} {m : Model} {isReachable : Bool} {actor : Option Nat} {s s' : Store}

/-- An observer that was just started is new, and is there. -/
theorem observer_of_observe (hp : sess.process.Orderly)
    (hs : sess.process.store? place = some s)
    (hobserve : s.observe m isReachable = (.ok id, s')) :
    sess.process.observer? place id = none ∧ ∃ records, s.objects m = .ok records ∧
      (sess.process.setStore place s').observer? place id =
        some (.start id m records isReachable) := by
  have hnumbered := (Process.regular_of_store hp hs).numbered
  unfold Store.observe at hobserve
  split at hobserve
  · cases hobserve
  · next records hrecords =>
    cases hobserve
    refine ⟨?_, records, hrecords, ?_⟩
    · rw [Process.observer_eq hs]
      exact (Store.observer_eq_none_iff hnumbered).mpr (.inr (Nat.le_refl _))
    · rw [Process.observer_setStore hs, if_pos rfl]
      exact Store.observer_append hnumbered _ rfl

/-- Noting a new subscription. Its actor has it then. -/
theorem leads_noted (hp : sess.process.Orderly) (hs : sess.process.store? place = some s)
    (hobserve : s.observe m isReachable = (.ok id, s'))
    (hactor : ∀ n, actor = some n → ∃ a, sess.process.actors[n]? = some a ∧ a.store = place ∧
      a.isAlive = true ∧ a.isClosed = false) :
    sess.process.Leads (noted actor id (sess.process.setStore place s')) ∧
      (Handle.observation place id actor).IsProper
        (noted actor id (sess.process.setStore place s')) := by
  obtain ⟨hnone, records, -, ho⟩ := observer_of_observe hp hs hobserve
  have hs' : s.Later s' := by
    have hlater : s.Later (s.observe m isReachable).2 := s.later_observe m
    rwa [hobserve] at hlater
  have hset : sess.process.Leads (sess.process.setStore place s') :=
    Process.later_setStore hp hs hs'
  cases actor with
  | none => exact ⟨hset, ⟨_, ho⟩, nofun⟩
  | some n =>
    obtain ⟨a, ha, rfl, halive, hopen⟩ := hactor n rfl
    have hnew : ∀ (k : Nat) (a' : Actor), (sess.process.setStore a.store s').actors[k]? = some a' →
        a'.store = a.store → id ∉ a'.tokens := by
      intro k a' ha' hsame hid
      obtain ⟨o, ho⟩ := hp.tokens k a' id ha' hid
      rw [hsame, hnone] at ho
      cases ho
    have hremember : (sess.process.setStore a.store s').Leads
        ((sess.process.setStore a.store s').remember n id) :=
      Process.later_remember hset.orderly ha ⟨_, ho⟩ hnew
    refine ⟨hset.trans hremember, ?_⟩
    obtain ⟨o', ho', -⟩ := hremember.observer a.store id _ ho
    have ha' : ((sess.process.setStore a.store s').remember n id).actors[n]? = some _ :=
      (List.getElem?_modify_eq ..).trans (congrArg (Option.map _) ha)
    refine ⟨⟨o', ho'⟩, fun k hk => ?_⟩
    cases hk
    refine ⟨⟨_, ha', halive⟩, _, o', ha', rfl, ho', .inr ⟨?_, hopen⟩⟩
    exact List.mem_append_right _ (List.mem_singleton_self id)

end Observing

/-- A move leaves a session in order. -/
theorem Move.orderly (h : Move sess sess') (hsess : sess.Orderly) :
    sess'.Orderly ∧ sess.process.Leads sess'.process := by
  cases h with
  | ticket => exact ⟨⟨hsess.running, hsess.process, hsess.handles, hsess.unique⟩,
      Process.later_refl hsess.process⟩
  | openStore c =>
    have hp : sess.process.Leads (sess.process.openStore c).2 :=
      Process.later_openStore hsess.process c
    exact ⟨hsess.of_leads hp, hp⟩
  | openActor m c =>
    have hp : sess.process.Leads (sess.process.openActor m c).2 :=
      Process.later_openActor hsess.process m c
    exact ⟨hsess.of_leads hp, hp⟩
  | bind name hh hobserved =>
    refine ⟨orderly_bound hsess name hh fun _ _ _ hsome => ?_, leads_released hsess name⟩
    exact nomatch hobserved.symm.trans hsome
  | unbind name => exact ⟨orderly_unbound hsess name, leads_released hsess name⟩
  | @observe place m isReachable actor s s' id as hs hobserve hactor =>
    obtain ⟨hnoted, hproper⟩ := leads_noted hsess.process hs hobserve hactor
    have hsess' := hsess.of_leads hnoted
    refine ⟨orderly_bound hsess' as hproper ?_, hnoted.trans (leads_released hsess' as)⟩
    intro entry hentry observed hobserved hsame
    obtain rfl : (place, id) = observed := Option.some.inj hobserved
    have hentry := hsess.handles entry hentry
    have hnone := (observer_of_observe hsess.process hs hobserve).1
    cases hhandle : entry.2 with
    | observation place' id' owner =>
      rw [hhandle] at hsame hentry
      cases hsame
      obtain ⟨o, ho⟩ := hentry.1
      exact nomatch hnone.symm.trans ho
    | _ => rw [hhandle] at hsame; cases hsame

theorem Moves.orderly (h : Moves sess sess') (hsess : sess.Orderly) :
    sess'.Orderly ∧ sess.process.Leads sess'.process := by
  induction h with
  | refl => exact ⟨hsess, Process.later_refl hsess.process⟩
  | tail hmoves hmove ih =>
    obtain ⟨hmiddle, hleads⟩ := ih
    obtain ⟨hlast, hleads'⟩ := hmove.orderly hmiddle
    exact ⟨hlast, hleads.trans hleads'⟩

/-- An operation keeps a session orderly. -/
theorem Done.orderly (h : Done sess sess') (hsess : sess.Orderly) :
    sess'.Orderly ∧ sess.process.Leads sess'.process := by
  cases h with
  | moves hmoves => exact hmoves.orderly hsess
  | @commit middle place s t hmoves hs hnames =>
    obtain ⟨hmiddle, hleads⟩ := hmoves.orderly hsess
    have hcommit : middle.process.Leads (middle.process.setStore place (s.commit t)) :=
      Process.later_setStore hmiddle.process hs (Store.later_commit hnames)
    exact ⟨hmiddle.of_leads hcommit, hleads.trans hcommit⟩

/-- So does a request. -/
theorem Effect.orderly {r : Request} (h : Effect sess r sess') (hsess : sess.Orderly) :
    sess'.Orderly ∧ sess.process.Leads sess'.process := by
  have hleads {p' : Process} (hp : sess.process.Leads p') :
      Orderly { sess with process := p' } ∧ sess.process.Leads p' := ⟨hsess.of_leads hp, hp⟩
  cases h with
  | done hdone => exact hdone.orderly hsess
  | close hh => exact hleads (Process.later_close hsess.process _)
  | receive hh hs =>
    have hnumbered := (Process.regular_of_store hsess.process hs).numbered
    exact hleads (Process.later_setStore hsess.process hs (Store.later_receive hnumbered _))
  | cancel hh hs =>
    exact hleads (Process.later_setStore hsess.process hs (Store.later_cancel _ _))
  | invalidate hh hsubscription =>
    exact hleads (Process.later_invalidate hsess.process _ _)

theorem mem_roots {root : Root} (hentry : (name, h) ∈ sess.handles) (hroot : root ∈ h.roots) :
    root ∈ sess.roots :=
  List.mem_append_right _ (List.mem_flatten.mpr ⟨h.roots, List.mem_map_of_mem hentry, hroot⟩)

/-- Dropping what nothing refers to leaves a session in order. -/
theorem orderly_settle (hsess : sess.Orderly) :
    sess.settle.Orderly ∧
      sess.process.Later (Root.actor · ∈ sess.roots) sess.settle.process := by
  have hlater := Process.later_collect hsess.process sess.roots
  refine ⟨⟨hsess.running, hlater.orderly, fun entry hentry => ?_, hsess.unique⟩, hlater⟩
  exact (hsess.handles entry hentry).later hlater fun n => mem_roots hentry

end Session

end RecordStore
