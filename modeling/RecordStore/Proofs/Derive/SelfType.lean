import RecordStore.Derive.SelfType

/-!
The uses of `Self` in a type, in the order in which they are visited. Naming `Self` fails with the
first type path that goes through it, and else replaces those uses that are a type of their own;
what it does comes down to the list of uses and a function that always succeeds.
-/
namespace RecordStore

namespace Token

mutual

def mentions (word : String) : Token → Bool
  | .ident s => s == word
  | .group _ content => anyMentions word content
  | _ => false

def anyMentions (word : String) : List Token → Bool
  | [] => false
  | t :: rest => t.mentions word || anyMentions word rest

end

end Token

inductive SelfUse where
  /-- As a type of its own. -/
  | alone
  /-- As the type of a receiver that is written without one. -/
  | implied
  /-- As the start of a type path that goes on. -/
  | through (path : TypeExpr)
  /-- As the start of a path that goes on and is no type. -/
  | beyond (segments : List PathSegment)
  /-- In any other place. -/
  | other

namespace SelfUse

def path? : SelfUse → Option TypeExpr
  | .through path => some path
  | _ => none

def goesOn : SelfUse → Bool
  | .through _ | .beyond _ => true
  | _ => false

def isFixed : SelfUse → Bool
  | .alone | .implied => false
  | _ => true

end SelfUse

namespace SelfType

def loneUse (s : String) : List SelfUse := if s == word then [.alone] else []

def wordUse (s : String) : List SelfUse := if s == word then [.other] else []

def tokensUse (ts : List Token) : List SelfUse := if Token.anyMentions word ts then [.other] else []

mutual

def uses : TypeExpr → List SelfUse
  | .infer => []
  | .path true segments => usesInSegments segments
  | .path false [.plain s] => loneUse s
  | .path false [.generic s _ arguments _] => loneUse s ++ usesInArguments arguments
  | .path false segments =>
    if isThrough segments then [.through (.path false segments)] else usesInSegments segments
  | .tuple items _ => usesInItems items
  | .paren inner => uses inner
  | .array element length => uses element ++ usesInFragments length
  | .slice element => uses element
  | .bound _ fragments => usesInFragments fragments
  | .other fragments => usesInFragments fragments

def usesInItems : List TypeExpr → List SelfUse
  | [] => []
  | t :: rest => uses t ++ usesInItems rest

def usesInSegments : List PathSegment → List SelfUse
  | [] => []
  | .plain s :: rest => wordUse s ++ usesInSegments rest
  | .generic s _ arguments _ :: rest =>
    wordUse s ++ usesInArguments arguments ++ usesInSegments rest

def usesInArguments : List TypeArgument → List SelfUse
  | [] => []
  | .type t :: rest => uses t ++ usesInArguments rest
  | .literal ts :: rest => tokensUse ts ++ usesInArguments rest
  | .lifetime s :: rest => wordUse s ++ usesInArguments rest
  | .other fragments :: rest => usesInFragments fragments ++ usesInArguments rest

def usesInFragments : List Fragment → List SelfUse
  | [] => []
  | .token t :: rest => tokensUse [t] ++ usesInFragments rest
  | .group _ content :: rest => usesInFragments content ++ usesInFragments rest
  | .type t :: rest => uses t ++ usesInFragments rest
  | .path isGlobal segments :: rest =>
    (if !isGlobal && isThrough segments then [.beyond segments] else []) ++
      usesInSegments segments ++ usesInFragments rest
  | .arguments arguments _ :: rest => usesInArguments arguments ++ usesInFragments rest
  | .receiver reference t :: rest =>
    tokensUse reference ++ (if isSelf t then [.implied] else uses t) ++ usesInFragments rest
  | .withClause part clause :: rest =>
    usesInFragments clause ++ usesInFragments part ++ usesInFragments rest

end

mutual

def rename (model : String) : TypeExpr → TypeExpr
  | .infer => .infer
  | .path true segments => .path true (renameInSegments model segments)
  | .path false [.plain s] => .path false [.plain (renamed model s)]
  | .path false [.generic s turbofish arguments trailing] =>
    .path false [.generic (renamed model s) turbofish (renameInArguments model arguments) trailing]
  | .path false segments => .path false
    (if isThrough segments then segments else renameInSegments model segments)
  | .tuple items trailing => .tuple (renameInItems model items) trailing
  | .paren inner => .paren (rename model inner)
  | .array element length => .array (rename model element) (renameInFragments model length)
  | .slice element => .slice (rename model element)
  | .bound isParenthesized fragments => .bound isParenthesized (renameInFragments model fragments)
  | .other fragments => .other (renameInFragments model fragments)

def renameInItems (model : String) : List TypeExpr → List TypeExpr
  | [] => []
  | t :: rest => rename model t :: renameInItems model rest

def renameInSegments (model : String) : List PathSegment → List PathSegment
  | [] => []
  | .plain s :: rest => .plain s :: renameInSegments model rest
  | .generic s turbofish arguments trailing :: rest =>
    .generic s turbofish (renameInArguments model arguments) trailing ::
      renameInSegments model rest

def renameInArguments (model : String) : List TypeArgument → List TypeArgument
  | [] => []
  | .type t :: rest => .type (rename model t) :: renameInArguments model rest
  | .literal ts :: rest => .literal ts :: renameInArguments model rest
  | .lifetime s :: rest => .lifetime s :: renameInArguments model rest
  | .other fragments :: rest =>
    .other (renameInFragments model fragments) :: renameInArguments model rest

def renameInFragments (model : String) : List Fragment → List Fragment
  | [] => []
  | .token t :: rest => .token t :: renameInFragments model rest
  | .group d content :: rest =>
    .group d (renameInFragments model content) :: renameInFragments model rest
  | .type t :: rest => .type (rename model t) :: renameInFragments model rest
  | .path isGlobal segments :: rest =>
    .path isGlobal (renameInSegments model segments) :: renameInFragments model rest
  | .arguments arguments trailing :: rest =>
    .arguments (renameInArguments model arguments) trailing :: renameInFragments model rest
  | .receiver reference t :: rest =>
    .receiver reference (rename model t) :: renameInFragments model rest
  | .withClause part clause :: rest =>
    .withClause (renameInFragments model part) (renameInFragments model clause) ::
      renameInFragments model rest

end

def firstThrough (uses : List SelfUse) : Option TypeExpr := uses.findSome? SelfUse.path?

def verdict {α : Type} (uses : List SelfUse) (a : α) : Except TypeExpr α :=
  match firstThrough uses with
  | some path => .error path
  | none => .ok a

variable {α β : Type}

theorem verdict_map (us : List SelfUse) (a : α) (f : α → β) :
    (verdict us a).map f = verdict us (f a) := by
  unfold verdict
  cases firstThrough us <;> rfl

/-- Of two parts the first is judged first. -/
theorem verdict_bind (us vs : List SelfUse) (a : α) (f : α → β) :
    (verdict us a >>= fun a => verdict vs (f a)) = verdict (us ++ vs) (f a) := by
  unfold verdict firstThrough
  rw [List.findSome?_append]
  cases us.findSome? SelfUse.path? <;> rfl

theorem verdict_pure (us : List SelfUse) (a : α) (f : α → β) :
    (verdict us a >>= fun a => pure (f a)) = verdict us (f a) := by
  unfold verdict
  cases firstThrough us <;> rfl

theorem firstThrough_append (us vs : List SelfUse) :
    firstThrough (us ++ vs) = (firstThrough us).or (firstThrough vs) := List.findSome?_append

theorem firstThrough_loneUse (s : String) : firstThrough (loneUse s) = none := by
  unfold loneUse
  split <;> rfl

theorem firstThrough_wordUse (s : String) : firstThrough (wordUse s) = none := by
  unfold wordUse
  split <;> rfl

theorem firstThrough_tokensUse (ts : List Token) : firstThrough (tokensUse ts) = none := by
  unfold tokensUse
  split <;> rfl

theorem verdict_of_none {us : List SelfUse} (h : firstThrough us = none) (a : α) :
    verdict us a = .ok a := by
  rw [verdict, h]

theorem verdict_append_of_none {us : List SelfUse} (h : firstThrough us = none)
    (vs : List SelfUse) (a : α) : verdict (us ++ vs) a = verdict vs a := by
  simp only [verdict, firstThrough_append, h, Option.none_or]

theorem eq_self_of_isSelf {t : TypeExpr} (h : isSelf t = true) : t = .path false [.plain word] := by
  unfold isSelf at h
  split at h
  · simpa [word] using h
  · cases h

/-- The type of a receiver goes through nothing where it is not written. -/
theorem firstThrough_receiver (t : TypeExpr) :
    firstThrough (if isSelf t then [.implied] else uses t) = firstThrough (uses t) := by
  split
  · next h =>
    rw [eq_self_of_isSelf h]
    rfl
  · rfl

section

variable (model : String) (segments : List PathSegment) (s s' : PathSegment)
  (rest : List PathSegment) (n : String) (turbofish : Bool) (arguments : List TypeArgument)
  (trailing : Bool)

theorem uses_global : uses (.path true segments) = usesInSegments segments := rfl

theorem rename_global :
    rename model (.path true segments) = .path true (renameInSegments model segments) := rfl

theorem uses_plain : uses (.path false [.plain n]) = loneUse n := rfl

theorem rename_plain :
    rename model (.path false [.plain n]) = .path false [.plain (renamed model n)] := rfl

theorem uses_generic : uses (.path false [.generic n turbofish arguments trailing]) =
    loneUse n ++ usesInArguments arguments := rfl

theorem rename_generic : rename model (.path false [.generic n turbofish arguments trailing]) =
    .path false [.generic (renamed model n) turbofish (renameInArguments model arguments)
      trailing] := rfl

theorem name_path : name model (.path false (s :: s' :: rest)) =
    if isThrough (s :: s' :: rest) then .error (.path false (s :: s' :: rest))
    else (nameInSegments model (s :: s' :: rest)).map (.path false) := by
  cases s <;> rfl

theorem uses_path : uses (.path false (s :: s' :: rest)) =
    if isThrough (s :: s' :: rest) then [.through (.path false (s :: s' :: rest))]
    else usesInSegments (s :: s' :: rest) := by
  cases s <;> rfl

theorem rename_path : rename model (.path false (s :: s' :: rest)) = .path false
    (if isThrough (s :: s' :: rest) then s :: s' :: rest
      else renameInSegments model (s :: s' :: rest)) := by
  cases s <;> rfl

end

mutual

/-- Naming `Self` fails with the first type path that goes through it, and else renames. -/
theorem name_eq (model : String) (t : TypeExpr) :
    name model t = verdict (uses t) (rename model t) := by
  cases t with
  | infer => rfl
  | path isGlobal segments =>
    match isGlobal, segments with
    | true, segments =>
      rw [uses_global, rename_global, ← verdict_map, ← nameInSegments_eq]
      rfl
    | false, [] => rfl
    | false, [.plain n] =>
      rw [uses_plain, rename_plain, verdict_of_none (firstThrough_loneUse n)]
      rfl
    | false, [.generic n turbofish arguments trailing] =>
      show (nameInArguments model arguments >>= fun arguments => pure _) = _
      rw [uses_generic, rename_generic, nameInArguments_eq, verdict_pure,
        verdict_append_of_none (firstThrough_loneUse n)]
    | false, s :: s' :: rest =>
      rw [name_path, uses_path, rename_path]
      split
      · rfl
      · rw [nameInSegments_eq, verdict_map]
  | tuple items trailing => rw [name, nameInItems_eq, verdict_map, uses, rename]
  | paren inner => rw [name, name_eq, verdict_map, uses, rename]
  | array element length =>
    simp only [name, uses, rename]
    rw [name_eq, nameInFragments_eq]
    simp only [verdict_pure, verdict_bind]
  | slice element => rw [name, name_eq, verdict_map, uses, rename]
  | bound isParenthesized fragments => rw [name, nameInFragments_eq, verdict_map, uses, rename]
  | other fragments => rw [name, nameInFragments_eq, verdict_map, uses, rename]

theorem nameInItems_eq (model : String) (ts : List TypeExpr) :
    nameInItems model ts = verdict (usesInItems ts) (renameInItems model ts) := by
  cases ts with
  | nil => rfl
  | cons t rest =>
    rw [nameInItems, name_eq, nameInItems_eq]
    simp only [verdict_pure, verdict_bind, usesInItems, renameInItems]

theorem nameInSegments_eq (model : String) (segments : List PathSegment) :
    nameInSegments model segments =
      verdict (usesInSegments segments) (renameInSegments model segments) := by
  cases segments with
  | nil => rfl
  | cons s rest =>
    cases s with
    | plain s =>
      rw [nameInSegments, nameInSegments_eq, verdict_map, usesInSegments,
        verdict_append_of_none (firstThrough_wordUse s), renameInSegments]
    | generic s turbofish arguments trailing =>
      rw [nameInSegments, nameInArguments_eq, nameInSegments_eq]
      simp only [verdict_pure, verdict_bind, usesInSegments, renameInSegments, List.append_assoc,
        verdict_append_of_none (firstThrough_wordUse s)]

theorem nameInArguments_eq (model : String) (arguments : List TypeArgument) :
    nameInArguments model arguments =
      verdict (usesInArguments arguments) (renameInArguments model arguments) := by
  cases arguments with
  | nil => rfl
  | cons a rest =>
    cases a with
    | type t =>
      rw [nameInArguments, name_eq, nameInArguments_eq]
      simp only [verdict_pure, verdict_bind, usesInArguments, renameInArguments]
    | literal ts =>
      rw [nameInArguments, nameInArguments_eq, verdict_map, usesInArguments,
        verdict_append_of_none (firstThrough_tokensUse ts), renameInArguments]
    | lifetime s =>
      rw [nameInArguments, nameInArguments_eq, verdict_map, usesInArguments,
        verdict_append_of_none (firstThrough_wordUse s), renameInArguments]
    | other fragments =>
      rw [nameInArguments, nameInFragments_eq, nameInArguments_eq]
      simp only [verdict_pure, verdict_bind, usesInArguments, renameInArguments]

/-- Naming `Self` in fragments fails for the first use through it, and otherwise renames. -/
theorem nameInFragments_eq (model : String) (fragments : List Fragment) :
    nameInFragments model fragments =
      verdict (usesInFragments fragments) (renameInFragments model fragments) := by
  cases fragments with
  | nil => rfl
  | cons f rest =>
    cases f with
    | token t =>
      rw [nameInFragments, nameInFragments_eq, verdict_map, usesInFragments,
        verdict_append_of_none (firstThrough_tokensUse [t]), renameInFragments]
    | group d content =>
      rw [nameInFragments, nameInFragments_eq model content, nameInFragments_eq model rest]
      simp only [verdict_pure, verdict_bind, usesInFragments, renameInFragments]
    | type t =>
      rw [nameInFragments, name_eq, nameInFragments_eq]
      simp only [verdict_pure, verdict_bind, usesInFragments, renameInFragments]
    | path isGlobal segments =>
      have hnone : firstThrough
          (if !isGlobal && isThrough segments then [SelfUse.beyond segments] else []) = none := by
        split <;> rfl
      rw [nameInFragments, nameInSegments_eq, nameInFragments_eq]
      simp only [verdict_pure, verdict_bind, usesInFragments, renameInFragments, List.append_assoc,
        verdict_append_of_none hnone]
    | arguments arguments trailing =>
      rw [nameInFragments, nameInArguments_eq, nameInFragments_eq]
      simp only [verdict_pure, verdict_bind, usesInFragments, renameInFragments]
    | receiver reference t =>
      rw [nameInFragments, name_eq, nameInFragments_eq]
      simp only [verdict_pure, verdict_bind, usesInFragments, renameInFragments, List.append_assoc,
        verdict_append_of_none (firstThrough_tokensUse reference)]
      simp only [verdict, firstThrough_append, firstThrough_receiver]
    | withClause part clause =>
      rw [nameInFragments, nameInFragments_eq model clause, nameInFragments_eq model part,
        nameInFragments_eq model rest]
      simp only [verdict_pure, verdict_bind, usesInFragments, renameInFragments, List.append_assoc]

end

end SelfType

end RecordStore
