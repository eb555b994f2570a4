import RecordStore.Proofs.Session.Effect

/-!
What is left when nothing is dropped any more. Dropping what nothing refers to leaves no actor that
lives without a root and no store that lives unreferred, so doing it again drops nothing; and it
takes nothing from what an observer has been sent.
-/
namespace RecordStore

namespace Process

variable {p p' p'' : Process} {roots : List Root} {place id n : Nat} {s : Store}

def dropActors (p : Process) (roots : List Root) : Process :=
  (List.range p.actors.length).foldl
    (fun p k => if roots.contains (.actor k) then p else p.dropActor k) p

def dropUnreferred (roots : List Root) (p : Process) (k : Nat) : Process :=
  match p.stores[k]? with
  | some o => if o.isAlive && !o.isKept && !p.isStoreReferred roots k then p.dropStore k else p
  | none => p

theorem collect_eq (p : Process) (roots : List Root) :
    p.collect roots = (List.range (p.dropActors roots).stores.length).foldl
      (dropUnreferred roots) (p.dropActors roots) := rfl

/-- What one step brings about for its own place, and every other step keeps. -/
theorem foldl_establishes {P : Nat → Process → Prop} {f : Process → Nat → Process}
    (hset : ∀ q k, P k (f q k)) (hkeep : ∀ q k k', P k q → P k (f q k')) {k : Nat} :
    ∀ (l : List Nat) (q : Process), k ∈ l → P k (l.foldl f q)
  | j :: rest, q, hk => by
    rw [List.foldl_cons]
    rcases List.mem_cons.mp hk with rfl | hk
    · exact List.foldlRecOn rest f (hset q k) fun q hq k' _ => hkeep q k k' hq
    · exact foldl_establishes hset hkeep rest (f q j) hk

theorem foldl_keeps {P : Process → Prop} {f : Process → Nat → Process}
    (hf : ∀ q k, P q → P (f q k)) (l : List Nat) (hp : P p) : P (l.foldl f p) :=
  List.foldlRecOn l f hp fun q hq k _ => hf q k hq

def IsDead (p : Process) (n : Nat) : Prop :=
  ∀ a, p.actors[n]? = some a → a.isAlive = false

/-- Dropping an actor revives none, and leaves it dead. -/
theorem actor_dropActor {a' : Actor} (h : (p.dropActor n).actors[place]? = some a') :
    ∃ a, p.actors[place]? = some a ∧ (a'.isAlive = true → a.isAlive = true ∧ place ≠ n) := by
  unfold dropActor at h
  cases ha : p.actors[n]? with
  | none =>
    simp only [ha] at h
    refine ⟨a', h, fun halive => ⟨halive, ?_⟩⟩
    rintro rfl
    exact nomatch ha.symm.trans h
  | some b =>
    simp only [ha] at h
    split at h
    · rw [actors_invalidateAll] at h
      obtain ⟨a, ha', rfl⟩ := actors_updateActor h
      refine ⟨a, ha', fun halive => ?_⟩
      split at halive
      · cases halive
      · next hne => exact ⟨halive, fun hsame => hne hsame.symm⟩
    · next hdead =>
      refine ⟨a', h, fun halive => ⟨halive, ?_⟩⟩
      rintro rfl
      obtain rfl := Option.some.inj (ha.symm.trans h)
      exact hdead halive

theorem isDead_dropActor (p : Process) (n : Nat) : (p.dropActor n).IsDead n := by
  intro a' ha'
  obtain ⟨a, -, halive⟩ := actor_dropActor ha'
  cases h : a'.isAlive with
  | false => rfl
  | true => exact absurd rfl (halive h).2

theorem IsDead.dropActor (h : p.IsDead n) (k : Nat) : (p.dropActor k).IsDead n := by
  intro a' ha'
  obtain ⟨a, ha, halive⟩ := actor_dropActor ha'
  cases h' : a'.isAlive with
  | false => rfl
  | true => exact absurd (h a ha) (by simp [(halive h').1])

theorem dropActor_of_isDead (h : p.IsDead n) : p.dropActor n = p := by
  unfold RecordStore.Process.dropActor
  cases ha : p.actors[n]? with
  | none => rfl
  | some a => simp only [h a ha, Bool.false_eq_true, if_false]

/-- An actor that no root keeps is dead once such actors are dropped. -/
theorem isDead_dropActors (p : Process) (hn : Root.actor n ∉ roots) :
    (p.dropActors roots).IsDead n := by
  rcases Nat.lt_or_ge n p.actors.length with hlt | hge
  · refine foldl_establishes (P := fun k q => Root.actor k ∉ roots → q.IsDead k) (fun q k hk => ?_)
      (fun q k k' h hk => ?_) _ p (List.mem_range.mpr hlt) hn
    · rw [if_neg (by simpa using hk)]
      exact isDead_dropActor q k
    · split
      · exact h hk
      · exact (h hk).dropActor k'
  · refine foldl_keeps (P := fun q => q.IsDead n) (fun q k h => ?_) _ fun a ha => ?_
    · split
      · exact h
      · exact h.dropActor k
    · rw [List.getElem?_eq_none hge] at ha
      cases ha

theorem dropActors_eq_self (h : ∀ k, Root.actor k ∉ roots → p.IsDead k) :
    p.dropActors roots = p := by
  refine List.foldl_fixed' (fun k => ?_) _
  split
  · rfl
  · next hk => exact dropActor_of_isDead (h k (by simpa using hk))

theorem store_dropStore {k : Nat} (place : Nat) (hs : p.store? k = some s) :
    (p.dropStore place).store? k = some (if place = k then s.discard else s) := by
  obtain ⟨o, ho, rfl⟩ := Option.map_eq_some_iff.mp hs
  rw [store?, dropStore, updateStore, List.getElem?_modify, ho]
  split <;> rfl

def IsReferred (roots : List Root) (p : Process) (k : Nat) : Prop :=
  ∀ o, p.stores[k]? = some o → (o.isAlive && !o.isKept && !p.isStoreReferred roots k) = false

/-- A store is dropped, or it is left as it is for a reason. -/
theorem dropUnreferred_cases (roots : List Root) (p : Process) (k : Nat) :
    dropUnreferred roots p k = p ∧ p.IsReferred roots k ∨
      dropUnreferred roots p k = p.dropStore k ∧ p.isStoreReferred roots k = false := by
  unfold dropUnreferred IsReferred
  cases p.stores[k]? with
  | none => exact .inl ⟨rfl, nofun⟩
  | some o =>
    simp only [Option.some.injEq, forall_eq']
    split
    · next h =>
      simp only [Bool.and_eq_true, Bool.not_eq_true'] at h
      exact .inr ⟨rfl, h.2⟩
    · next h => exact .inl ⟨rfl, Bool.not_eq_true _ ▸ h⟩

theorem actors_collect (p : Process) (roots : List Root) :
    (p.collect roots).actors = (p.dropActors roots).actors := by
  rw [collect_eq]
  refine foldl_keeps (P := fun q => q.actors = (p.dropActors roots).actors) (fun q k hq => ?_) _ rfl
  rcases dropUnreferred_cases roots q k with ⟨h, -⟩ | ⟨h, -⟩ <;> rw [h] <;> exact hq

theorem dropUnreferred_of_isReferred (h : p.IsReferred roots n) :
    dropUnreferred roots p n = p := by
  unfold dropUnreferred
  cases ho : p.stores[n]? with
  | none => rfl
  | some o => simp only [h o ho, Bool.false_eq_true, if_false]

theorem isReferred_dropStore (p : Process) (n : Nat) : (p.dropStore n).IsReferred roots n := by
  intro o' ho'
  rw [dropStore, updateStore, List.getElem?_modify_eq] at ho'
  obtain ⟨o, -, rfl⟩ := Option.map_eq_some_iff.mp ho'
  rfl

theorem IsReferred.dropStore (h : p.IsReferred roots n) (k : Nat) :
    (p.dropStore k).IsReferred roots n := by
  intro o' ho'
  rw [RecordStore.Process.dropStore, updateStore, List.getElem?_modify] at ho'
  obtain ⟨o, ho, rfl⟩ := Option.map_eq_some_iff.mp ho'
  split
  · rfl
  · exact h o ho

/-- Once what nothing refers to was dropped, every open store is kept or referred to. -/
theorem isReferred_collect (p : Process) (hn : n < (p.dropActors roots).stores.length) :
    (p.collect roots).IsReferred roots n := by
  rw [collect_eq]
  refine foldl_establishes (P := fun k q => q.IsReferred roots k) (fun q k => ?_)
    (fun q k k' hk => ?_) _ _ (List.mem_range.mpr hn)
  · rcases dropUnreferred_cases roots q k with ⟨h, hreferred⟩ | ⟨h, -⟩ <;> rw [h]
    · exact hreferred
    · exact isReferred_dropStore q k
  · rcases dropUnreferred_cases roots q k' with ⟨h, -⟩ | ⟨h, -⟩ <;> rw [h]
    · exact hk
    · exact hk.dropStore k'

theorem length_collect (p : Process) (roots : List Root) :
    (p.collect roots).stores.length = (p.dropActors roots).stores.length := by
  rw [collect_eq]
  refine foldl_keeps (P := fun q => q.stores.length = (p.dropActors roots).stores.length)
    (fun q k hq => ?_) _ rfl
  rcases dropUnreferred_cases roots q k with ⟨h, -⟩ | ⟨h, -⟩ <;> rw [h]
  · exact hq
  · exact (List.length_modify ..).trans hq

/-- Dropping again what nothing refers to drops nothing. -/
theorem collect_collect (p : Process) (roots : List Root) :
    (p.collect roots).collect roots = p.collect roots := by
  have hactors : (p.collect roots).dropActors roots = p.collect roots := by
    refine dropActors_eq_self fun k hk a ha => ?_
    rw [actors_collect] at ha
    exact isDead_dropActors p hk a ha
  rw [collect_eq (p.collect roots), hactors]
  refine List.foldl_fixed' (fun k => dropUnreferred_of_isReferred fun o ho => ?_) _
  have hk : k < (p.collect roots).stores.length := (List.getElem?_eq_some_iff.mp ho).1
  rw [length_collect] at hk
  exact isReferred_collect p hk o ho

def KeepsQueues (p p' : Process) : Prop :=
  ∀ place id o, p.observer? place id = some o →
    ∃ o', p'.observer? place id = some o' ∧ o'.queue = o.queue

theorem keepsQueues_refl (p : Process) : p.KeepsQueues p := fun _ _ o ho => ⟨o, ho, rfl⟩

theorem KeepsQueues.trans (h : p.KeepsQueues p') (h' : p'.KeepsQueues p'') : p.KeepsQueues p'' := by
  intro place id o ho
  obtain ⟨o', ho', hqueue⟩ := h place id o ho
  obtain ⟨o'', ho'', hqueue'⟩ := h' place id o' ho'
  exact ⟨o'', ho'', hqueue'.trans hqueue⟩

theorem keepsQueues_invalidateAll (p : Process) (place : Nat) (ids : List Nat) :
    p.KeepsQueues (p.invalidateAll place ids) := by
  intro k id o ho
  refine ⟨_, observer_invalidateAll place ids ho, ?_⟩
  split
  · exact o.queue_invalidate
  · rfl

theorem keepsQueues_close (p : Process) (n : Nat) : p.KeepsQueues (p.close n) := by
  unfold close
  split
  · exact p.keepsQueues_refl
  · split
    · exact p.keepsQueues_refl
    · exact keepsQueues_invalidateAll (p.updateActor n _) _ _

theorem keepsQueues_dropActor (p : Process) (n : Nat) : p.KeepsQueues (p.dropActor n) := by
  unfold dropActor
  split
  · exact p.keepsQueues_refl
  · split
    · exact keepsQueues_invalidateAll (p.updateActor n _) _ _
    · exact p.keepsQueues_refl

theorem keepsQueues_dropStore (p : Process) (place : Nat) : p.KeepsQueues (p.dropStore place) := by
  intro k id o ho
  obtain ⟨s, hs, ho'⟩ := store_of_observer ho
  have hs' := store_dropStore place hs
  split at hs'
  · exact ⟨_, (observer_eq hs' id).trans (Store.observer_of_map rfl (fun _ => rfl) ho'), rfl⟩
  · exact ⟨o, (observer_eq hs' id).trans ho', rfl⟩

/-- Dropping what nothing refers to leaves the queues of observers. -/
theorem keepsQueues_collect (p : Process) (roots : List Root) :
    p.KeepsQueues (p.collect roots) := by
  have hactors : p.KeepsQueues (p.dropActors roots) := by
    refine foldl_keeps (P := p.KeepsQueues) (fun q k hq => ?_) _ p.keepsQueues_refl
    split
    · exact hq
    · exact hq.trans (q.keepsQueues_dropActor k)
  rw [collect_eq]
  refine foldl_keeps (P := p.KeepsQueues) (fun q k hq => ?_) _ hactors
  rcases dropUnreferred_cases roots q k with ⟨h, -⟩ | ⟨h, -⟩ <;> rw [h]
  · exact hq
  · exact hq.trans (q.keepsQueues_dropStore k)

end Process

namespace Session

variable {sess : Session}

def IsSettled (sess : Session) : Prop := sess.settle = sess

theorem isSettled_settle (sess : Session) : sess.settle.IsSettled :=
  congrArg (Session.mk · sess.handles sess.running sess.nextTicket)
    (sess.process.collect_collect sess.roots)

theorem isSettled_empty : IsSettled {} := rfl

end Session

end RecordStore
