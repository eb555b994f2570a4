/-!
Computations with a state that may fail. What one comes to is a function of the state it starts in;
the state is kept where it fails.
-/
namespace RecordStore

variable {ε σ α β : Type}

/-- What a computation comes to, and the state that it leaves. -/
def outcome (x : ExceptT ε (StateM σ) α) (s : σ) : Except ε α × σ := x.run.run s

namespace Outcome

theorem pure_eq (a : α) (s : σ) :
    outcome (pure a : ExceptT ε (StateM σ) α) s = (.ok a, s) := rfl

theorem get_eq (s : σ) : outcome (get : ExceptT ε (StateM σ) σ) s = (.ok s, s) := rfl

theorem modify_eq (f : σ → σ) (s : σ) :
    outcome (modify f : ExceptT ε (StateM σ) PUnit) s = (.ok (), f s) := rfl

theorem modifyGet_eq (f : σ → α × σ) (s : σ) :
    outcome (modifyGet f : ExceptT ε (StateM σ) α) s = (.ok (f s).1, (f s).2) := rfl

theorem lift_eq (e : Except ε α) (s : σ) :
    outcome (liftM e : ExceptT ε (StateM σ) α) s = (e, s) := by
  cases e <;> rfl

/-- A sequence goes on where its first part left off, and stops where that failed. -/
theorem bind_eq (x : ExceptT ε (StateM σ) α) (f : α → ExceptT ε (StateM σ) β) (s : σ) :
    outcome (x >>= f) s = match outcome x s with
      | (.ok a, s') => outcome (f a) s'
      | (.error e, s') => (.error e, s') := by
  show StateT.run (ExceptT.run (x >>= f)) s = _
  rw [ExceptT.run_bind, StateT.run_bind]
  rcases h : outcome x s with ⟨e | a, s'⟩
  · have hx : StateT.run (ExceptT.run x) s = (.error e, s') := h
    rw [hx]
    rfl
  · have hx : StateT.run (ExceptT.run x) s = (.ok a, s') := h
    rw [hx]
    rfl

/-- What is done at the end is done even where the computation failed. -/
theorem tryFinally_eq (x : ExceptT ε (StateM σ) α) (f : σ → σ) (s : σ) :
    outcome (tryFinally x (modify f)) s = ((outcome x s).1, f (outcome x s).2) := by
  show StateT.run (ExceptT.run (tryFinally x (modify f))) s = _
  have hx : StateT.run (ExceptT.run x) s = outcome x s := rfl
  rcases h : outcome x s with ⟨e | a, s'⟩ <;>
    (rw [h] at hx
     simp only [tryFinally, tryFinally', ExceptT.run, ExceptT.mk, StateT.run, bind, StateT.bind,
       Functor.map, ExceptT.map, pure] at hx ⊢
     rw [hx]
     rfl)

end Outcome

end RecordStore
