/-!
A fair lock. Who asks first gets it first: a lock that is released belongs at once to the head of
its queue, whether or not the owner has noticed.
-/
namespace RecordStore

/-- A lock with its holder and those who wait for it, by ticket. -/
structure Lock where
  holder : Option Nat := none
  waiting : List Nat := []
  deriving DecidableEq, Repr

namespace Lock

def isHeldBy (l : Lock) (ticket : Nat) : Bool := l.holder == some ticket

def acquire (l : Lock) (ticket : Nat) : Lock :=
  match l.holder with
  | none => { l with holder := some ticket }
  | some _ => { l with waiting := l.waiting ++ [ticket] }

def release (l : Lock) : Lock := ⟨l.waiting.head?, l.waiting.tail⟩

def leave (l : Lock) (ticket : Nat) : Lock :=
  if l.isHeldBy ticket then l.release
  else { l with waiting := l.waiting.filter (· != ticket) }

end Lock

end RecordStore
