import RecordStore.Proofs.Session.ListTransaction
import RecordStore.Proofs.Session.Refinement

/-!
Runs on a store of plain lists. Each request is answered as it is on plain lists and leaves a
session that still refines one on plain lists, also when what nothing refers to has been dropped; so
a run of requests gets the answers that it gets there.
-/
namespace RecordStore.Session

variable {models : Model → Prop} {identifier : String} {sess : Session} {ref : ListSession}

theorem Refines.issue (h : Refines models identifier sess ref) (ticket : Nat) :
    Refines models identifier { sess with nextTicket := ticket } ref :=
  ⟨h.running, h.quiet, h.clients, h.offers⟩

/-- What is issued through an actor is an operation that its actor lets through. -/
theorem answers_actorOperation (h : Refines models identifier sess ref) {n : Nat} {a : Actor}
    (ha : sess.process.actors[n]? = some a) {work : Model → Except Answer Work} {w : Work}
    (hwork : work a.model = .ok w) {nested : Request → Run Answer} {r : Request}
    {result : Answer × ListSession}
    (hanswers : ∀ op, IssuedThrough op n a → op.work = w → IsFree op sess.process →
      Answers models identifier (conclude nested r (.operation op))
        { sess with nextTicket := sess.nextTicket + 1 } result) :
    Answers models identifier (actorOperation n work >>= conclude nested r) sess result := by
  let op : StoreOperation := {
    ticket := sess.nextTicket, model := a.model, actor := some n, store := a.store,
    configuration := a.configuration, work := w }
  have hop : IssuedThrough op n a := ⟨rfl, rfl, rfl, rfl, rfl⟩
  refine (hanswers op hop rfl (isFree_of_quiet h.quiet hop ha)).of_outcome ?_
  rw [Outcome.bind_eq, outcome_actorOperation ha, hwork]

/-- What is issued straight to a store waits for no actor. -/
theorem answers_storeOperation {place : Nat} {c : Configuration} {m : Model} {w : Work}
    {nested : Request → Run Answer} {r : Request} {result : Answer × ListSession}
    (hanswers : ∀ op : StoreOperation, op.stage = .start → op.model = m → op.store = place →
      op.configuration = c → op.work = w → IsFree op sess.process →
      Answers models identifier (conclude nested r (.operation op))
        { sess with nextTicket := sess.nextTicket + 1 } result) :
    Answers models identifier (storeOperation place c m w >>= conclude nested r) sess result := by
  let op : StoreOperation := {
    ticket := sess.nextTicket, model := m, actor := none, store := place, configuration := c,
    work := w }
  have hissued : outcome (storeOperation place c m w) sess =
      (.ok (.operation op), { sess with nextTicket := sess.nextTicket + 1 }) := rfl
  refine (hanswers op rfl rfl rfl rfl rfl trivial).of_outcome ?_
  rw [Outcome.bind_eq, hissued]

/-- A call through an actor. -/
theorem answers_actorCall (hkey : OneKey models) (h : Refines models identifier sess ref)
    (hheld : IsHeld identifier sess) {n : Nat} {a : Actor}
    (ha : sess.process.actors[n]? = some a)
    (hplace : sess.process.find? identifier = some a.store) (hm : models a.model)
    {work : Model → Except Answer Work} {call : Except Answer ListCall}
    (hamounts : Amounts a.model (work a.model) call) (nested : Request → Run Answer) (r : Request) :
    Answers models identifier (actorOperation n work >>= conclude nested r) sess
      (ref.call a.model a.configuration call) := by
  cases call with
  | error answer =>
    have hwork : work a.model = .error answer := hamounts
    refine ⟨sess, ?_, h, hheld⟩
    rw [Outcome.bind_eq, outcome_actorOperation ha, hwork]
    rfl
  | ok call =>
    obtain ⟨w, hwork, hrealizes⟩ := hamounts
    refine answers_actorOperation h ha hwork fun op hop hw _ => ?_
    subst hw
    obtain ⟨sess', hadvance, hleft⟩ :=
      refines_call hkey (h.issue (sess.nextTicket + 1)) hheld hop ha hplace hm hrealizes
    exact ⟨sess', outcome_conclude hadvance r, hleft⟩

/-- A listing that its actor, if it has one, lets through. -/
theorem answers_list (h : Refines models identifier sess ref) (hheld : IsHeld identifier sess)
    {op : StoreOperation} (hstart : op.stage = .start) (hwork : op.work = .list none)
    (hfree : IsFree op sess.process) (hplace : sess.process.find? identifier = some op.store)
    (nested : Request → Run Answer) (r : Request) :
    Answers models identifier (conclude nested r (.operation op)) sess
      (ref.list op.model, ref) := by
  obtain ⟨o, ho, hholds⟩ := h.offers.store hplace
  have hstore : sess.process.store? op.store = some o.store := by
    rw [Process.store?, ho]
    rfl
  refine ⟨sess, ?_, h, hheld⟩
  rw [outcome_conclude (outcome_advance_list hstart hwork hfree hstore), hholds.objects_eq]
  rfl

/-- Listing through an actor. -/
theorem answers_actorList (h : Refines models identifier sess ref) (hheld : IsHeld identifier sess)
    {n : Nat} {a : Actor} (ha : sess.process.actors[n]? = some a)
    (hplace : sess.process.find? identifier = some a.store) (nested : Request → Run Answer)
    (r : Request) :
    Answers models identifier
      (actorOperation n (fun _ => .ok (.list none)) >>= conclude nested r) sess
      (ref.list a.model, ref) := by
  refine answers_actorOperation h ha rfl fun op hop hwork hfree => ?_
  rw [← hop.model]
  rw [← hop.store] at hplace
  exact answers_list (h.issue (sess.nextTicket + 1)) hheld hop.stage hwork hfree hplace nested r

/-- Listing straight from a store. -/
theorem answers_storeList (h : Refines models identifier sess ref) (hheld : IsHeld identifier sess)
    {place : Nat} (hplace : sess.process.find? identifier = some place) (c : Configuration)
    (m : Model) (nested : Request → Run Answer) (r : Request) :
    Answers models identifier
      (storeOperation place c m (.list none) >>= conclude nested r) sess (ref.list m, ref) := by
  refine answers_storeOperation fun op hstart hmodel hstore _ hwork hfree => ?_
  subst hmodel hstore
  exact answers_list (h.issue (sess.nextTicket + 1)) hheld hstart hwork hfree hplace nested r

/-- A write that its actor, if it has one, lets through. -/
theorem answers_write (hkey : OneKey models) (h : Refines models identifier sess ref)
    (hheld : IsHeld identifier sess) {op : StoreOperation} {steps : List Step}
    (hstart : op.stage = .start) (hwork : op.work = .write steps)
    (hplain : steps.all Step.isPlain = true) (hm : ∀ m ∈ steps.filterMap Step.model?, models m)
    (hfree : IsFree op sess.process) (hplace : sess.process.find? identifier = some op.store)
    (nested : Request → Run Answer) (r : Request) :
    Answers models identifier (conclude nested r (.operation op)) sess
      (ref.write op.configuration steps) := by
  have hwrite : op.work.isWrite = true := by rw [hwork]; rfl
  unfold ListSession.write
  cases hreadOnly : op.configuration.readOnly with
  | true =>
    refine ⟨sess, (outcome_conclude
      (outcome_advance_readOnly hstart hwrite hreadOnly hfree) r).trans ?_, h, hheld⟩
    rw [StoreOperation.failure, hwork]
    rfl
  | false =>
    obtain ⟨o, ho, hholds⟩ := h.offers.store hplace
    obtain ⟨s', hleaves, hidentifier, hs'⟩ := leaves_write hkey nested hwork hplain hm hholds
    obtain ⟨sess', hadvance, hleft⟩ := refines_leaves h hheld hstart hwrite hreadOnly hfree hplace
      ho hleaves hidentifier hs'
    exact ⟨sess', outcome_conclude hadvance r, hleft⟩

/-- Writing through an actor for any model. -/
theorem answers_actorWrite (hkey : OneKey models) (h : Refines models identifier sess ref)
    (hheld : IsHeld identifier sess) {n : Nat} {a : Actor} {steps : List Step}
    (ha : sess.process.actors[n]? = some a)
    (hplace : sess.process.find? identifier = some a.store)
    (hplain : steps.all Step.isPlain = true) (hm : ∀ m ∈ steps.filterMap Step.model?, models m)
    (nested : Request → Run Answer) (r : Request) :
    Answers models identifier
      (actorOperation n (fun _ => .ok (.write steps)) >>= conclude nested r) sess
      (ref.write a.configuration steps) := by
  refine answers_actorOperation h ha rfl fun op hop hwork hfree => ?_
  rw [← hop.configuration]
  rw [← hop.store] at hplace
  exact answers_write hkey (h.issue (sess.nextTicket + 1)) hheld hop.stage hwork hplain hm hfree
    hplace nested r

/-- Writing straight to a store. -/
theorem answers_storeWrite (hkey : OneKey models) (h : Refines models identifier sess ref)
    (hheld : IsHeld identifier sess) {place : Nat}
    (hplace : sess.process.find? identifier = some place) (c : Configuration) {steps : List Step}
    (hplain : steps.all Step.isPlain = true) (hm : ∀ m ∈ steps.filterMap Step.model?, models m)
    (nested : Request → Run Answer) (r : Request) :
    Answers models identifier
      (storeOperation place c anyModel (.write steps) >>= conclude nested r) sess
      (ref.write c steps) := by
  refine answers_storeOperation fun op hstart _ hstore hconfiguration hwork hfree => ?_
  subst hstore hconfiguration
  exact answers_write hkey (h.issue (sess.nextTicket + 1)) hheld hstart hwork hplain hm hfree hplace
    nested r

/-- An operation of a model itself goes through an actor that nothing refers to afterwards. -/
theorem answers_memberOperation (h : Refines models identifier sess ref)
    (hheld : IsHeld identifier sess) (hdefault : ({} : Configuration).identifier = identifier)
    {m : Model} {work : Model → Except Answer Work} {result : Answer × ListSession}
    {nested : Request → Run Answer} {r : Request}
    (hactor : ∀ {sess' : Session} {n : Nat} {a : Actor},
      Refines models identifier sess' ref → IsHeld identifier sess' →
      sess'.process.actors[n]? = some a → sess'.process.find? identifier = some a.store →
      a.model = m → a.configuration = {} →
      Answers models identifier (actorOperation n work >>= conclude nested r) sess' result) :
    Answers models identifier (memberOperation m work >>= conclude nested r) sess
      (ref.ofModel m result) := by
  unfold memberOperation ListSession.ofModel
  cases m.isDerived with
  | false => exact ⟨sess, rfl, h, hheld⟩
  | true =>
    obtain ⟨place, hopened, ha⟩ := sess.process.opened_openActor m {}
    rcases hopen : sess.process.openActor m {} with ⟨n, p'⟩
    rw [hopen] at hopened ha
    have hopened : sess.process.Opened {} place p' := hopened
    have houtcome : outcome (onProcess (·.openActor m {})) sess =
        (.ok n, { sess with process := p' }) := by
      simp only [onProcess, Outcome.modifyGet_eq, hopen]
    have hheld' : IsHeld identifier { sess with process := p' } := by
      subst hdefault
      obtain ⟨o, ho, hkept, -⟩ := hopened.store
      intro place' hplace'
      obtain rfl : place = place' := Option.some.inj (hopened.found.symm.trans hplace')
      refine .inl fun o' ho' => ?_
      obtain rfl : o = o' := Option.some.inj (ho.symm.trans ho')
      exact hkept rfl
    have hrefines := refines_opened h hdefault hopened
    have hfound : p'.find? identifier = some place := hdefault ▸ hopened.found
    refine (hactor hrefines hheld' ha hfound rfl rfl).of_outcome ?_
    simp only [if_true, Outcome.bind_eq, houtcome]

/-- A call of a model itself answers as the plain lists do. -/
theorem answers_memberCall (hkey : OneKey models) (h : Refines models identifier sess ref)
    (hheld : IsHeld identifier sess) (hdefault : ({} : Configuration).identifier = identifier)
    {m : Model} (hm : models m) {work : Model → Except Answer Work}
    {call : Except Answer ListCall} (hamounts : Amounts m (work m) call)
    (nested : Request → Run Answer) (r : Request) :
    Answers models identifier (memberOperation m work >>= conclude nested r) sess
      (ref.ofModel m (ref.call m {} call)) := by
  refine answers_memberOperation h hheld hdefault ?_
  intro sess' n a hrefines hheld' ha hplace hmodel hconfiguration
  subst hmodel
  rw [← hconfiguration]
  exact answers_actorCall hkey hrefines hheld' ha hplace hm hamounts nested r

theorem answers_memberList (h : Refines models identifier sess ref)
    (hheld : IsHeld identifier sess) (hdefault : ({} : Configuration).identifier = identifier)
    (m : Model) (nested : Request → Run Answer) (r : Request) :
    Answers models identifier
      (memberOperation m (fun _ => .ok (.list none)) >>= conclude nested r) sess
      (ref.ofModel m (ref.list m, ref)) := by
  refine answers_memberOperation h hheld hdefault ?_
  intro sess' n a hrefines hheld' ha hplace hmodel _
  subst hmodel
  exact answers_actorList hrefines hheld' ha hplace nested r

/-- An operation through the generated actor of a handle. -/
theorem answers_onGenerated (hkey : OneKey models) (h : Refines models identifier sess ref)
    (hheld : IsHeld identifier sess) (on : String) {work : Model → Except Answer Work}
    {call : Model → Except Answer ListCall} (hamounts : ∀ m, Amounts m (work m) (call m))
    (nested : Request → Run Answer) (r : Request) :
    Answers models identifier (onGenerated on work >>= conclude nested r) sess
      (ref.onGenerated on call) := by
  unfold ListSession.onGenerated
  rcases lookup_forall₂ h.clients on with ⟨hnone, hnone'⟩ | ⟨handle, c, hhandle, hc, hstands⟩
  · rw [hnone']
    refine ⟨sess, ?_, h, hheld⟩
    simp only [onGenerated, Outcome.bind_eq, Outcome.get_eq, Session.handle?, hnone]
    rfl
  · rw [hc]
    cases hstands with
    | store c hplace =>
      refine ⟨sess, ?_, h, hheld⟩
      simp only [onGenerated, Outcome.bind_eq, Outcome.get_eq, Session.handle?, hhandle]
      rfl
    | actor ha halive hplace hm isGenerated =>
      cases isGenerated with
      | false =>
        refine ⟨sess, ?_, h, hheld⟩
        simp only [onGenerated, Outcome.bind_eq, Outcome.get_eq, Session.handle?, hhandle]
        rfl
      | true =>
        refine (answers_actorCall hkey h hheld ha hplace hm (hamounts _) nested r).of_outcome ?_
        simp only [onGenerated, Outcome.bind_eq, Outcome.get_eq, Session.handle?, hhandle]

theorem answers_clone (h : Refines models identifier sess ref) (hheld : IsHeld identifier sess)
    (on as : String) :
    Answers models identifier (runImmediate (.clone on as)) sess (ref.answer (.clone on as)) := by
  rcases lookup_forall₂ h.clients on with ⟨hnone, hnone'⟩ | ⟨handle, c, hhandle, hc, hstands⟩
  · simp only [runImmediate, withHandle, Session.handle?, ListSession.answer, hnone', Answers,
      Outcome.bind_eq, Outcome.get_eq, hnone]
    exact ⟨sess, rfl, h, hheld⟩
  · obtain ⟨sess', hbind, hrefines, hheld'⟩ := refines_bind h hstands as
    have hclonable : isClonable handle = true := by
      cases hstands <;> rfl
    simp only [runImmediate, withHandle, Session.handle?, ListSession.answer, hc, Answers,
      Outcome.bind_eq, Outcome.get_eq, hhandle, if_pos hclonable, hbind]
    exact ⟨sess', rfl, hrefines, hheld'⟩

theorem answers_openStore (h : Refines models identifier sess ref) {c : Configuration}
    (hc : c.identifier = identifier) (as : String) :
    Answers models identifier (runImmediate (.openStore as c)) sess
      (ref.answer (.openStore as c)) := by
  have hopened := sess.process.opened_openStore c
  rcases hopen : sess.process.openStore c with ⟨place, p'⟩
  rw [hopen] at hopened
  have hopened : sess.process.Opened c place p' := hopened
  have hrefines := refines_opened h hc hopened
  have hfound : p'.find? identifier = some place := hc ▸ hopened.found
  obtain ⟨sess', hbind, hrefines', hheld'⟩ := refines_bind hrefines (.store c hfound) as
  simp only [runImmediate, Answers, onProcess, Outcome.bind_eq, Outcome.modifyGet_eq, hopen, hbind]
  exact ⟨sess', rfl, hrefines', hheld'⟩

/-- Opening an actor of a model is answered as by the plain lists. -/
theorem answers_openActor (h : Refines models identifier sess ref)
    (hheld : IsHeld identifier sess) {c : Configuration} (hc : c.identifier = identifier)
    {m : Model} (hm : models m) (as : String) (isGenerated : Bool) :
    Answers models identifier (runImmediate (.openActor as m c isGenerated)) sess
      (ref.answer (.openActor as m c isGenerated)) := by
  cases hoffers : m.offers isGenerated with
  | false =>
    simp only [runImmediate, ListSession.answer, hoffers, Bool.false_eq_true, if_false]
    exact ⟨sess, rfl, h, hheld⟩
  | true =>
    obtain ⟨place, hopened, hactor⟩ := sess.process.opened_openActor m c
    rcases hopen : sess.process.openActor m c with ⟨n, p'⟩
    rw [hopen] at hopened hactor
    have hopened : sess.process.Opened c place p' := hopened
    have hrefines := refines_opened h hc hopened
    have hfound : p'.find? identifier = some place := hc ▸ hopened.found
    obtain ⟨sess', hbind, hrefines', hheld'⟩ :=
      refines_bind hrefines (.actor hactor rfl hfound hm isGenerated) as
    simp only [runImmediate, ListSession.answer, hoffers, if_true, Answers, onProcess,
      Outcome.bind_eq, Outcome.modifyGet_eq, hopen]
    exact ⟨sess', by rw [hbind]; rfl, hrefines', hheld'⟩

/-- Listing through a handle. -/
theorem answers_listRequest (h : Refines models identifier sess ref)
    (hheld : IsHeld identifier sess) (on : String) (model : Option Model)
    (nested : Request → Run Answer) (r : Request) :
    Answers models identifier (prepare (.list on model none) >>= conclude nested r) sess
      (ref.answer (.list on model none)) := by
  rcases lookup_forall₂ h.clients on with ⟨hnone, hnone'⟩ | ⟨handle, c, hhandle, hc, hstands⟩
  · simp only [ListSession.answer, hnone']
    refine ⟨sess, ?_, h, hheld⟩
    simp only [prepare, Outcome.bind_eq, Outcome.get_eq, Session.handle?, hnone]
    rfl
  · simp only [ListSession.answer, hc]
    cases hstands with
    | actor ha halive hplace hm isGenerated =>
      refine (answers_actorList h hheld ha hplace nested r).of_outcome ?_
      simp only [prepare, Outcome.bind_eq, Outcome.get_eq, Session.handle?, hhandle]
    | store c hplace =>
      cases model with
      | none =>
        refine ⟨sess, ?_, h, hheld⟩
        simp only [prepare, Outcome.bind_eq, Outcome.get_eq, Session.handle?, hhandle]
        rfl
      | some m =>
        refine (answers_storeList h hheld hplace c m nested r).of_outcome ?_
        simp only [prepare, Outcome.bind_eq, Outcome.get_eq, Session.handle?, hhandle]

/-- Writing through a handle. -/
theorem answers_writeRequest (hkey : OneKey models) (h : Refines models identifier sess ref)
    (hheld : IsHeld identifier sess) (on : String) {steps : List Step}
    (hplain : steps.all Step.isPlain = true) (hm : ∀ m ∈ steps.filterMap Step.model?, models m)
    (nested : Request → Run Answer) (r : Request) :
    Answers models identifier (prepare (.write on steps) >>= conclude nested r) sess
      (ref.answer (.write on steps)) := by
  rcases lookup_forall₂ h.clients on with ⟨hnone, hnone'⟩ | ⟨handle, c, hhandle, hc, hstands⟩
  · simp only [ListSession.answer, hnone']
    refine ⟨sess, ?_, h, hheld⟩
    simp only [prepare, Outcome.bind_eq, Outcome.get_eq, Session.handle?, hnone]
    rfl
  · simp only [ListSession.answer, hc]
    cases hstands with
    | store c hplace =>
      refine (answers_storeWrite hkey h hheld hplace c hplain hm nested r).of_outcome ?_
      simp only [prepare, Outcome.bind_eq, Outcome.get_eq, Session.handle?, hhandle]
    | actor ha halive hplace hactor isGenerated =>
      cases isGenerated with
      | true =>
        refine ⟨sess, ?_, h, hheld⟩
        simp only [prepare, Outcome.bind_eq, Outcome.get_eq, Session.handle?, hhandle]
        rfl
      | false =>
        refine (answers_actorWrite hkey h hheld ha hplace hplain hm nested r).of_outcome ?_
        simp only [prepare, Outcome.bind_eq, Outcome.get_eq, Session.handle?, hhandle]

/-- A request on one identifier is answered as on plain lists. -/
theorem answers_runWith (hkey : OneKey models) (h : Refines models identifier sess ref)
    (hheld : IsHeld identifier sess) (nested : Request → Run Answer) {r : Request}
    (hon : r.IsOn identifier) (hm : ∀ m ∈ r.models, models m) :
    Answers models identifier (runWith nested r) sess (ref.answer r) := by
  cases r with
  | openStore as c => exact answers_openStore h hon as
  | openActor as m c isGenerated =>
    exact answers_openActor h hheld hon (hm m (List.mem_singleton_self m)) as isGenerated
  | clone on as => exact answers_clone h hheld on as
  | create on arguments =>
    exact answers_onGenerated hkey h hheld on (amounts_create arguments) nested _
  | update on object changes =>
    exact answers_onGenerated hkey h hheld on (amounts_update object changes false) nested _
  | delete on object => exact answers_onGenerated hkey h hheld on (amounts_delete object) nested _
  | list on model as =>
    obtain rfl : as = none := hon
    exact answers_listRequest h hheld on model nested _
  | write on steps => exact answers_writeRequest hkey h hheld on hon hm nested _
  | createMember m arguments =>
    have hm := hm m (List.mem_singleton_self m)
    exact answers_memberCall hkey h hheld hon hm (amounts_create arguments m) nested _
  | updateMember m object changes =>
    have hm := hm m (List.mem_singleton_self m)
    exact answers_memberCall hkey h hheld hon hm (amounts_update object changes true m) nested _
  | deleteMember m object =>
    have hm := hm m (List.mem_singleton_self m)
    exact answers_memberCall hkey h hheld hon hm (amounts_delete object m) nested _
  | listMember m as =>
    obtain ⟨hdefault, rfl⟩ := hon
    exact answers_memberList h hheld hdefault m nested _
  | _ => exact absurd hon id

theorem Stands.collected {p p' : Process} {roots : List Root} {handle : Handle} {c : Client}
    (hc : Stands models identifier p handle c) (hroots : ∀ root ∈ handle.roots, root ∈ roots)
    (h : p.Collected roots identifier p') : Stands models identifier p' handle c := by
  cases hc with
  | store c hplace => exact .store c (h.find.trans hplace)
  | actor ha halive hplace hm isGenerated =>
    have hroot := hroots _ (List.mem_singleton_self _)
    exact .actor ((h.actors _ hroot).trans ha) halive (h.find.trans hplace) hm isGenerated

/-- A handle refers to the store under the identifier, itself or through its actor. -/
theorem Stands.refers {p : Process} {roots : List Root} {handle : Handle} {c : Client}
    (hc : Stands models identifier p handle c) (hroots : ∀ root ∈ handle.roots, root ∈ roots)
    {place : Nat} (hplace : p.find? identifier = some place) :
    Root.store place ∈ roots ∨ ∃ n a, Root.actor n ∈ roots ∧ p.actors[n]? = some a ∧
      a.isAlive = true ∧ a.store = place := by
  cases hc with
  | store c hfound =>
    obtain rfl := Option.some.inj (hfound.symm.trans hplace)
    exact .inl (hroots _ (List.mem_singleton_self _))
  | actor ha halive hfound hm isGenerated =>
    obtain rfl := Option.some.inj (hfound.symm.trans hplace)
    exact .inr ⟨_, _, hroots _ (List.mem_singleton_self _), ha, halive, rfl⟩

/-- Dropping what nothing refers to is not noticed. -/
theorem refines_settle (h : Refines models identifier sess ref) (hheld : IsHeld identifier sess) :
    Refines models identifier sess.settle ref ∧ IsHeld identifier sess.settle := by
  have hroots (entry : String × Handle) (hentry : entry ∈ sess.handles) (root : Root)
      (hroot : root ∈ entry.2.roots) : root ∈ sess.roots := by
    refine List.mem_append_right _ (List.mem_flatten.mpr ⟨entry.2.roots, ?_, hroot⟩)
    exact List.mem_map_of_mem hentry
  have hcollected : sess.process.Collected sess.roots identifier
      (sess.process.collect sess.roots) := by
    refine Process.collected_collect h.quiet fun place hplace => ?_
    refine (hheld place hplace).imp_right fun hhandles => ?_
    obtain ⟨entry, rest, hentries⟩ := List.exists_cons_of_ne_nil hhandles
    have hclients := h.clients
    rw [hentries, List.forall₂_cons_left_iff] at hclients
    obtain ⟨client, -, ⟨-, hstands⟩, -, -⟩ := hclients
    have hentry : entry ∈ sess.handles := hentries ▸ List.mem_cons_self
    exact hstands.refers (hroots entry hentry) hplace
  refine ⟨⟨h.running, hcollected.quiet, ?_, ?_⟩, fun place hplace => ?_⟩
  · have hclients := List.forall₂_and_left _ _ |>.mpr ⟨hroots, h.clients⟩
    exact hclients.imp fun entry client ⟨hentry, hname, hstands⟩ =>
      ⟨hname, hstands.collected hentry hcollected⟩
  · have hoffers := h.offers
    show Offers models identifier (sess.process.collect sess.roots) ref.lists
    unfold Offers at hoffers ⊢
    rw [hcollected.find]
    cases hplace : sess.process.find? identifier with
    | none =>
      rw [hplace] at hoffers
      exact hoffers
    | some place =>
      rw [hplace] at hoffers
      obtain ⟨o, ho, hholds⟩ := hoffers
      exact ⟨o, (hcollected.store place hplace).trans ho, hholds⟩
  · have hplace' : sess.process.find? identifier = some place := hcollected.find.symm.trans hplace
    refine (hheld place hplace').imp_left fun hkept o ho => hkept o ?_
    exact (hcollected.store place hplace').symm.trans ho

/-- A request that is run is answered as on plain lists, at any nesting that is allowed at all. -/
theorem answers_run (hkey : OneKey models) (h : Refines models identifier sess ref)
    (hheld : IsHeld identifier sess) (bound : Nat) {r : Request} (hon : r.IsOn identifier)
    (hm : ∀ m ∈ r.models, models m) :
    Answers models identifier (run (bound + 1) r) sess (ref.answer r) := by
  obtain ⟨sess', houtcome, hrefines, hheld'⟩ := answers_runWith hkey h hheld (run bound) hon hm
  obtain ⟨hsettled, hheldSettled⟩ := refines_settle hrefines hheld'
  refine ⟨sess'.settle, ?_, hsettled, hheldSettled⟩
  simp only [run, Outcome.bind_eq, houtcome, Outcome.modify_eq]
  rfl

/-- Requests one after the other are answered as by the plain lists. -/
theorem mapM_runOuter (hkey : OneKey models) (h : Refines models identifier sess ref)
    (hheld : IsHeld identifier sess) (bound : Nat) {requests : List Request}
    (hon : ∀ r ∈ requests, r.IsOn identifier)
    (hm : ∀ r ∈ requests, ∀ m ∈ r.models, models m) :
    ((requests.mapM (runOuter (bound + 1))).run sess).1 = ref.answers requests := by
  induction requests generalizing sess ref with
  | nil => rfl
  | cons r rest ih =>
    obtain ⟨sess', houtcome, hrefines, hheld'⟩ :=
      answers_run hkey h hheld bound (hon r List.mem_cons_self) (hm r List.mem_cons_self)
    have hrest := ih hrefines hheld' (fun r hr => hon r (List.mem_cons_of_mem _ hr))
      fun r hr => hm r (List.mem_cons_of_mem _ hr)
    rw [List.mapM_cons, StateT.run_bind, runOuter_eq houtcome, ListSession.answers, ← hrest]
    rfl

theorem refines_initial (models : Model → Prop) (identifier : String) :
    Refines models identifier {} {} := by
  refine ⟨rfl, Process.quiet_initial, .nil, ?_⟩
  show Offers models identifier Process.initial fun _ => []
  unfold Offers
  by_cases hdefault : identifier = "default"
  · subst hdefault
    exact ⟨_, rfl, Store.holds_empty models "default"⟩
  · have hnone : Process.initial.find? identifier = none := by
      simp [Process.find?, Process.initial, Ne.symm hdefault]
    rw [hnone]

theorem isHeld_initial (identifier : String) : IsHeld identifier {} := by
  intro place hplace
  refine .inl fun o ho => ?_
  obtain rfl := List.mem_singleton.mp (List.mem_of_getElem? ho)
  rfl

/-- Opening, creating, updating, deleting, writing and listing on one identifier, through any
handles and in any order, is answered as on a store that is nothing but a list of maps for every
type name. -/
theorem runAll_eq_answers {requests : List Request}
    (hkey : OneKey fun m => ∃ r ∈ requests, m ∈ r.models)
    (hon : ∀ r ∈ requests, r.IsOn identifier) :
    runAll requests = ListSession.answers {} requests := by
  refine mapM_runOuter hkey (refines_initial _ identifier) (isHeld_initial identifier) _ hon ?_
  exact fun r hr m hm => ⟨r, hr, hm⟩

/-- Two actors and a store on one identifier, calls through all of them, and two transactions of
several calls: one goes on after a failure that is caught, the other fails after it changed
something. -/
def ledgerRequests : List Request :=
  let opened : Values := [("id", .string "x"), ("owner", .string "o"), ("balance", .integer 5)]
  let other : Values := [("id", .string "y"), ("owner", .string "o"), ("balance", .integer 1)]
  let remark : Values := [("type", .string "t"), ("text", .string "m"), ("object", .string "x")]
  [.openActor "accounts" .account (.volatile "db") true,
    .openActor "notes" .note (.volatile "db") true,
    .openStore "ledger" (.volatile "db"),
    .create "accounts" opened,
    .create "accounts" opened,
    .create "notes" remark,
    .update "accounts" opened [("id", .string "y")],
    .update "accounts" opened [("balance", .integer 7)],
    .list "ledger" (some .account) none,
    .delete "notes" remark,
    .list "notes" none none,
    .write "ledger" [.call .account (.create other) false, .call .account (.create opened) true,
      .call .account (.delete opened) false, .call .note (.add remark) false,
      .call .account .objects false],
    .write "ledger" [.call .account (.delete other) false, .call .account .objects false,
      .call .account (.resolve other) false, .call .note (.delete remark) false],
    .list "accounts" none none,
    .list "notes" none none]

theorem runAll_eq_answers_ledger :
    (OneKey fun m => ∃ r ∈ ledgerRequests, m ∈ r.models) ∧
      (∀ r ∈ ledgerRequests, r.IsOn "db") ∧
      let remark : Record := ⟨[("type", .string "t"), ("text", .string "m"),
        ("object", .string "x"), ("configuration", .absent)], []⟩
      let other : Record :=
        ⟨[("id", .string "y"), ("owner", .string "o"), ("balance", .integer 1)], []⟩
      (runAll ledgerRequests).drop 3 =
        [.record ⟨[("id", .string "x"), ("owner", .string "o"), ("balance", .integer 5)], []⟩,
          .failed (.duplicatePrimaryKey "Account" "\"x\""),
          .record remark,
          .failed (.primaryKeyChanged "Account" "\"x\"" "\"y\""),
          .record ⟨[("id", .string "x"), ("owner", .string "o"), ("balance", .integer 7)], []⟩,
          .records [⟨[("id", .string "x"), ("owner", .string "o"), ("balance", .integer 7)], []⟩],
          .deleted,
          .records [],
          .committed [.record other, .failed (.duplicatePrimaryKey "Account" "\"x\""), .deleted,
            .added, .records [other]],
          .failedWrite (.objectNotFound "Account")
            [.deleted, .records [], .failed (.objectNotFound "Account")],
          .records [other],
          .records [remark]] := by
  have hmodels (m : Model) (hm : ∃ r ∈ ledgerRequests, m ∈ r.models) :
      m = .account ∨ m = .note := by
    have hmem : m ∈ [Model.account, .note, .account, .account, .account, .note, .account, .account,
      .account, .account, .note] := List.mem_flatMap.mpr hm
    simp only [List.mem_cons, List.not_mem_nil, or_false] at hmem
    tauto
  have hkey : OneKey fun m => ∃ r ∈ ledgerRequests, m ∈ r.models := by
    intro m m' hm hm' hname
    rcases hmodels m hm with rfl | rfl <;> rcases hmodels m' hm' with rfl | rfl
    · rfl
    · exact absurd hname (by decide)
    · exact absurd hname (by decide)
    · rfl
  have hon : ∀ r ∈ ledgerRequests, r.IsOn "db" := by
    simp [ledgerRequests, Request.IsOn, Configuration.volatile, Step.isPlain]
  refine ⟨hkey, hon, ?_⟩
  rw [runAll_eq_answers hkey hon]
  rfl

end RecordStore.Session
