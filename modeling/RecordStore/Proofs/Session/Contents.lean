import RecordStore.Proofs.Session.Registry

/-!
What is stored under an identifier. A request leaves it as it is unless it writes through a handle
that was opened under the identifier or drops the last one that kept it, and whoever opens an
identifier under which nothing is open finds nothing stored.
-/
namespace RecordStore

def Request.Retains (r : Request) (identifier : String) : Prop :=
  ∃ c, r.opens? = some c ∧ c.identifier = identifier ∧ c.inMemory = false

def Process.opening (p : Process) : Request → Process
  | .openStore _ c => (p.openStore c).2
  | .openActor _ m c isGenerated => if m.offers isGenerated then (p.openActor m c).2 else p
  | r =>
    match r.member? with
    | some (m, _) => (p.openActor m {}).2
    | none => p

namespace Session

variable {retained retained' : String → Prop} {sess : Session} {k k' bound : Nat}
  {i : String} {c : Configuration} {r : Request} {requests : List Request} {m : Model}
  {w : Work}

/-- What is stored under an identifier: the tables of the store that is open under it, if any. -/
def contents (sess : Session) (identifier : String) : Tables :=
  ((sess.process.find? identifier).bind sess.process.tables?).getD []

/-- A request that writes through a handle that was opened under an identifier, or that is a write
of a model itself, on the default store. -/
def WritesTo (sess : Session) (r : Request) (identifier : String) : Prop :=
  (∃ on place c, r.writer? = some on ∧ sess.Keeps on place c ∧ c.identifier = identifier) ∨
    ∃ m w, r.member? = some (m, .ok w) ∧ w.isWrite = true ∧
      ({} : Configuration).identifier = identifier

def Touches (sess : Session) (r : Request) (place : Nat) : Prop :=
  sess.WritesAt r place ∨ ∃ m w, r.member? = some (m, .ok w) ∧ w.isWrite = true ∧
    place = (sess.process.openStore {}).1

theorem Registered.congr (hsess : sess.Registered retained)
    (h : ∀ i, retained' i ↔ retained i) : sess.Registered retained' :=
  ⟨⟨hsess.process.apart, fun i => (h i).trans (hsess.process.kept i), hsess.process.actors⟩,
    hsess.stores, hsess.names⟩

theorem opening_of_opens (h : r.opens? = none) (p : Process) : p.opening r = p := by
  cases r with
  | openStore => cases h
  | openActor as m c isGenerated =>
    rw [Request.opens?] at h
    rw [Process.opening]
    split at h
    · cases h
    · next hoffers => exact if_neg hoffers
  | _ =>
    simp only [Request.opens?, Option.map_eq_none_iff] at h
    simp only [Process.opening, h]

theorem opening_member {work : Except Answer Work} (h : r.member? = some (m, work))
    (p : Process) : p.opening r = (p.openActor m {}).2 := by
  cases r with
  | openStore | openActor => cases h
  | _ => simp only [Process.opening, h]

theorem opening_of_offers (as : String) {isGenerated : Bool} (hoffers : m.offers isGenerated = true)
    (p : Process) : p.opening (.openActor as m c isGenerated) = (p.openActor m c).2 :=
  if_pos hoffers

/-- The request that opens a store by a configuration, and what it leaves of a process. -/
inductive Opens (p : Process) (c : Configuration) : Request → Process → Prop
  | store (as : String) : Opens p c (.openStore as c) (p.openStore c).2
  | actor (as : String) {m : Model} {isGenerated : Bool} (hoffers : m.offers isGenerated = true) :
      Opens p c (.openActor as m c isGenerated) (p.openActor m c).2
  | member {r : Request} {m : Model} {work : Except Answer Work}
      (hmember : r.member? = some (m, work)) (hdefault : {} = c) :
      Opens p c r (p.openActor m c).2

/-- A request opens what it says, before anything else is done. -/
theorem opens_opening (h : r.opens? = some c) (p : Process) : Opens p c r (p.opening r) := by
  cases r with
  | openStore as =>
    cases h
    exact .store as
  | openActor as m c' isGenerated =>
    rw [Request.opens?] at h
    split at h
    · next hoffers =>
      cases h
      rw [opening_of_offers as hoffers]
      exact .actor as hoffers
    · cases h
  | _ =>
    simp only [Request.opens?, Option.map_eq_some_iff] at h
    obtain ⟨⟨m, work⟩, hmember, hdefault⟩ := h
    rw [opening_member hmember, hdefault]
    exact .member hmember hdefault

theorem stores_opening (h : r.opens? = some c) (p : Process) :
    (p.opening r).stores = (p.openStore c).2.stores := by
  have hopens := opens_opening h p
  generalize p.opening r = opened at hopens ⊢
  cases hopens <;> rfl

/-- A request adds to the open stores the one that it opens, and no other. -/
theorem openAt_opening (p : Process) (r : Request) : (p.opening r).OpenAt k i ↔
    p.OpenAt k i ∨ ∃ c, r.opens? = some c ∧ k = (p.openStore c).1 ∧ c.identifier = i := by
  cases hopens : r.opens? with
  | none => simp [opening_of_opens hopens]
  | some c =>
    have hstores := stores_opening hopens p
    have hopened := p.openAt_openStore c (k := k) (i := i)
    unfold Process.OpenAt at hopened ⊢
    rw [hstores, hopened]
    simp

/-- What is open after a request has opened what it opens is as it was, or new. -/
theorem store_opening {p : Process} (h : (p.opening r).OpenAt k i) :
    p.OpenAt k i ∧ (p.opening r).store? k = p.store? k ∨
      (∀ k', ¬p.OpenAt k' i) ∧ (p.opening r).store? k = some { identifier := i } := by
  cases hopens : r.opens? with
  | none =>
    rw [opening_of_opens hopens] at h ⊢
    exact .inl ⟨h, rfl⟩
  | some c =>
    have hstores := stores_opening hopens p
    have hopened := p.store_openStore (c := c) (k := k) (i := i)
    unfold Process.OpenAt at h
    rw [hstores] at h
    unfold Process.store? at hopened ⊢
    rw [hstores]
    exact hopened h

theorem outcome_openStore (nested : Request → Run Answer) (as : String) (c : Configuration) :
    outcome (runWith nested (.openStore as c)) sess = (.ok .opened,
      Session.bound { sess with process := (sess.process.openStore c).2 } as
        (.store (sess.process.openStore c).1 c)) := by
  rw [runWith_eq nested rfl]
  show outcome (runImmediate (.openStore as c)) sess = _
  simp only [runImmediate, Outcome.bind_eq, onProcess, Outcome.modifyGet_eq, outcome_bind_eq]
  rfl

theorem outcome_openActor (nested : Request → Run Answer) (as : String) {isGenerated : Bool}
    (hoffers : m.offers isGenerated = true) :
    outcome (runWith nested (.openActor as m c isGenerated)) sess = (.ok (.state false),
      Session.bound { sess with process := (sess.process.openActor m c).2 } as
        (.actor (sess.process.openActor m c).1 isGenerated)) := by
  rw [runWith_eq nested rfl]
  show outcome (runImmediate (.openActor as m c isGenerated)) sess = _
  simp only [runImmediate, hoffers, if_true, Outcome.bind_eq, onProcess, Outcome.modifyGet_eq,
    outcome_bind_eq]
  rfl

/-- A request opens what it opens and then changes nothing but the tables that it writes. -/
theorem modifiesOnly_opening (nested : Request → Run Answer) (hsess : sess.Orderly)
    (hr : r.isComplete = true) : (sess.process.opening r).ModifiesOnly (sess.Touches r)
      (outcome (runWith nested r) sess).2.process := by
  cases hopens : r.opens? with
  | none =>
    rw [opening_of_opens hopens]
    have h := (modifiesOnly_runWith nested hsess hr hopens).process
    exact ⟨h.stores, h.actors, fun k hk => h.tables k fun hwrites => hk (.inl hwrites)⟩
  | some c =>
    have hopened := opens_opening hopens sess.process
    generalize sess.process.opening r = p at hopened ⊢
    cases hopened with
    | store as =>
      rw [outcome_openStore]
      exact modifiesOnly_released { sess with process := (sess.process.openStore c).2 } as
    | @actor as m isGenerated hoffers =>
      rw [outcome_openActor nested as hoffers]
      exact modifiesOnly_released { sess with process := (sess.process.openActor m c).2 } as
    | @member _ m work hmember hdefault =>
      obtain rfl := hdefault
      have h := (modifiesOnly_member nested hsess hmember).process
      refine ⟨h.stores, h.actors, fun k hk => h.tables k ?_⟩
      rintro ⟨w, rfl, hwrites⟩
      exact hk (.inr ⟨m, w, hmember, hwrites⟩)

/-- What is retained once a request was made. -/
theorem registered_runWith (nested : Request → Run Answer) (hsess : sess.Orderly)
    (hregistered : sess.Registered retained) (hr : r.isComplete = true) :
    (outcome (runWith nested r) sess).2.Registered fun i => retained i ∨ r.Retains i := by
  cases hopens : r.opens? with
  | none =>
    refine (hregistered.modifiesOnly (modifiesOnly_runWith nested hsess hr hopens)).congr
      fun i => ?_
    simp [Request.Retains, hopens]
  | some c =>
    have hretains (i : String) : retained i ∨ r.Retains i ↔ Process.Retaining retained c i := by
      simp [Request.Retains, Process.Retaining, hopens]
    refine Registered.congr ?_ hretains
    have hactor (m : Model) := hregistered.opened (hregistered.process.openActor m c) rfl
    have hopened := opens_opening hopens sess.process
    generalize sess.process.opening r = p at hopened
    cases hopened with
    | store as =>
      rw [outcome_openStore]
      refine (hregistered.opened (hregistered.process.openStore c) rfl).bound as ?_
      rintro place c' ⟨⟩
      exact sess.process.openAt_opened c
    | @actor as m isGenerated hoffers =>
      rw [outcome_openActor nested as hoffers]
      exact (hactor m).bound as fun _ _ h => by cases h
    | @member _ m work hmember hdefault =>
      obtain rfl := hdefault
      exact (hactor m).modifiesOnly (modifiesOnly_member nested hsess hmember)

theorem next_eq (bound : Nat) (sess : Session) (r : Request) :
    sess.next (bound + 1) r = (outcome (runWith (run bound) r) sess).2.settle := by
  rw [next, runOuter_succ]
  rcases outcome (runWith (run bound) r) sess with ⟨_ | _, _⟩ <;> rfl

theorem registered_next (bound : Nat) (hsess : sess.Orderly)
    (hregistered : sess.Registered retained) (hr : r.isComplete = true) :
    (sess.next (bound + 1) r).Registered fun i => retained i ∨ r.Retains i := by
  rw [next_eq]
  exact (registered_runWith (run bound) hsess hregistered hr).settle

/-- After some requests, the retained identifiers are those that one of them retains, and the
earlier ones. -/
theorem registered_after (bound : Nat) (hsess : sess.Orderly)
    (hregistered : sess.Registered retained) (hrequests : AllComplete requests) :
    (sess.after (bound + 1) requests).Registered fun i =>
      retained i ∨ ∃ r ∈ requests, r.Retains i := by
  induction requests generalizing sess retained with
  | nil => exact hregistered.congr (by simp)
  | cons r rest ih =>
    have hr := hrequests r List.mem_cons_self
    refine (ih (orderly_next bound hsess hr).1 (registered_next bound hsess hregistered hr)
      fun r' hr' => hrequests r' (List.mem_cons_of_mem r hr')).congr fun i => ?_
    simp [or_assoc]

/-- A store that is open after a request was open, or is what the request opened. -/
theorem openAt_next (hsess : sess.Orderly) (hr : r.isComplete = true)
    (h : (sess.next (bound + 1) r).process.OpenAt k i) :
    (sess.process.opening r).OpenAt k i ∧ (¬sess.Touches r k →
      (sess.next (bound + 1) r).process.tables? k = (sess.process.opening r).tables? k) := by
  rw [next_eq] at h ⊢
  have hmodifies := modifiesOnly_opening (run bound) hsess hr
  generalize (outcome (runWith (run bound) r) sess).2 = middle at h hmodifies ⊢
  have htrims : middle.process.Trims middle.settle.process := Process.trims_collect _ _
  obtain ⟨hopen, htables⟩ := htrims.openAt h
  exact ⟨hmodifies.openAt_iff.mp hopen, fun hk => htables.trans (hmodifies.tables k hk)⟩

/-- A store that is open stays where it is. -/
theorem eq_of_openAt_next (hsess : sess.Orderly) (hregistered : sess.Registered retained)
    (hr : r.isComplete = true) (h : sess.process.OpenAt k i)
    (h' : (sess.next (bound + 1) r).process.OpenAt k' i) : k = k' := by
  have hmodifies := modifiesOnly_opening (run bound) hsess hr
  have hmiddle := (registered_runWith (run bound) hsess hregistered hr).process
  refine hmiddle.apart i k k' (hmodifies.openAt_iff.mpr ?_)
    (hmodifies.openAt_iff.mpr (openAt_next hsess hr h').1)
  exact (openAt_opening _ r).mpr (.inl h)

/-- A request that writes to a store writes to the identifier under which it is open. -/
theorem Touches.writesTo (h : sess.Touches r k) (hsess : sess.Orderly)
    (hregistered : sess.Registered retained) (hopen : (sess.process.opening r).OpenAt k i) :
    sess.WritesTo r i := by
  have hsame {i' : String} (h' : (sess.process.opening r).OpenAt k i') : i' = i := h'.unique hopen
  rcases h with ⟨on, c, hwriter, hkeeps⟩ | ⟨m, w, hmember, hwrite, rfl⟩
  · refine .inl ⟨on, k, c, hwriter, hkeeps, hsame ?_⟩
    exact (openAt_opening _ r).mpr (.inl (hkeeps.openAt hsess hregistered))
  · refine .inr ⟨m, w, hmember, hwrite, hsame ?_⟩
    exact (openAt_opening _ r).mpr (.inr ⟨{}, opens_member hmember, rfl, rfl⟩)

theorem contents_of_openAt (hp : sess.process.Registered retained)
    (h : sess.process.OpenAt k i) :
    sess.contents i = (sess.process.tables? k).getD [] := by
  rw [contents, hp.find h]
  rfl

theorem contents_of_store (hp : sess.process.Registered retained) (h : sess.process.OpenAt k i)
    {s : Store} (hs : sess.process.store? k = some s) : sess.contents i = s.tables := by
  rw [contents_of_openAt hp h, Process.tables?, hs]
  rfl

theorem contents_of_not_openAt (h : ∀ k, ¬sess.process.OpenAt k i) : sess.contents i = [] := by
  cases hfind : sess.process.find? i with
  | none => rw [contents, hfind]; rfl
  | some k => exact absurd (Process.openAt_of_find hfind) (h k)

/-- What is stored under an identifier is left as it is by a request that does not write to it and
does not drop its store. -/
theorem contents_next (hsess : sess.Orderly) (hregistered : sess.Registered retained)
    (hr : r.isComplete = true) (hopen : ((sess.next (bound + 1) r).process.find? i).isSome)
    (hwrites : ¬sess.WritesTo r i) :
    (sess.next (bound + 1) r).contents i = sess.contents i := by
  obtain ⟨k, hk⟩ := Process.isSome_find_iff.mp hopen
  obtain ⟨hopened, htables⟩ := openAt_next hsess hr hk
  have hnext := (registered_next bound hsess hregistered hr).process
  rw [contents_of_openAt hnext hk, htables fun h => hwrites (h.writesTo hsess hregistered hopened)]
  rcases store_opening hopened with ⟨hold, hstore⟩ | ⟨hnone, hstore⟩
  · rw [contents_of_openAt hregistered.process hold, Process.tables?, Process.tables?, hstore]
  · rw [contents_of_not_openAt hnone, Process.tables?, hstore]
    rfl

end Session

end RecordStore
