import RecordStore.Derive.Signature
import Mathlib.Data.List.Basic

/-!
Which types have a signature, and why the others have none. A storable type is built from
parentheses, tuples, slices, arrays and paths whose last segment alone may carry arguments, each a
literal or a storable type. Of any other type the first node that cannot be stored is the reason,
where a node comes before what is in it and what is in it from left to right.
-/
namespace RecordStore

inductive TypeExpr.Storable : TypeExpr → Prop
  | paren {inner : TypeExpr} (h : inner.Storable) : Storable (.paren inner)
  | tuple {items : List TypeExpr} (trailing : Bool) (h : ∀ t ∈ items, t.Storable) :
      Storable (.tuple items trailing)
  | slice {element : TypeExpr} (h : element.Storable) : Storable (.slice element)
  | array {element : TypeExpr} (length : List Fragment) (h : element.Storable) :
      Storable (.array element length)
  | names (isGlobal : Bool) (names : List String) :
      Storable (.path isGlobal (names.map .plain))
  | generic (isGlobal : Bool) (names : List String) (name : String) (turbofish trailing : Bool)
      {arguments : List TypeArgument}
      (hkind : ∀ a ∈ arguments, (∃ ts, a = .literal ts) ∨ ∃ t, a = .type t)
      (htypes : ∀ t, .type t ∈ arguments → t.Storable) :
      Storable (.path isGlobal (names.map .plain ++ [.generic name turbofish arguments trailing]))

/-- A node of a type: a type in it, or an argument of a path in it. -/
inductive TypeNode where
  | type (type : TypeExpr)
  | argument (argument : TypeArgument)

namespace TypeNode

mutual

/-- The nodes of a type in order. The length of an array holds none, and neither does a type that
has no shape of its own. -/
def ofType : TypeExpr → List TypeNode
  | .infer => [.type .infer]
  | .path isGlobal segments => .type (.path isGlobal segments) :: ofSegments segments
  | .tuple items trailing => .type (.tuple items trailing) :: ofItems items
  | .paren inner => .type (.paren inner) :: ofType inner
  | .array element length => .type (.array element length) :: ofType element
  | .slice element => .type (.slice element) :: ofType element
  | .bound isParenthesized fragments => [.type (.bound isParenthesized fragments)]
  | .other fragments => [.type (.other fragments)]

def ofItems : List TypeExpr → List TypeNode
  | [] => []
  | t :: rest => ofType t ++ ofItems rest

def ofSegments : List PathSegment → List TypeNode
  | [] => []
  | .plain _ :: rest => ofSegments rest
  | .generic _ _ arguments _ :: rest => ofArguments arguments ++ ofSegments rest

def ofArguments : List TypeArgument → List TypeNode
  | [] => []
  | .type t :: rest => .argument (.type t) :: ofType t ++ ofArguments rest
  | .literal ts :: rest => .argument (.literal ts) :: ofArguments rest
  | .lifetime name :: rest => .argument (.lifetime name) :: ofArguments rest
  | .other fragments :: rest => .argument (.other fragments) :: ofArguments rest

end

/-- What is wrong with a node by itself: a placeholder, an argument that is neither a type nor a
literal, or a type that has no shape of its own or arguments before the end of its path. -/
def offence? (member : String) : TypeNode → Option ExpansionError
  | .argument (.type .infer) => some (.unresolvedGenericArgument "_" member)
  | .argument (.type _) | .argument (.literal _) => none
  | .argument a => some (.unresolvedGenericArgument (Token.textOf a.tokens.2) member)
  | .type .infer => some (.missingType member)
  | .type (.path isGlobal segments) =>
    if segments.dropLast.all TypeReader.isPlain then none
    else some (.unsupportedType (TypeExpr.path isGlobal segments).text member)
  | .type (.tuple ..) | .type (.paren _) | .type (.array ..) | .type (.slice _) => none
  | .type t => some (.unsupportedType t.text member)

/-- What is wrong first. -/
def firstOffence (member : String) (nodes : List TypeNode) : Option ExpansionError :=
  nodes.findSome? (offence? member)

end TypeNode

namespace Signature

open TypeNode

variable {member : String}

def failure? {ε α : Type} : Except ε α → Option ε
  | .ok _ => none
  | .error e => some e

@[simp] theorem failure?_ok {ε α : Type} (a : α) : failure? (.ok a : Except ε α) = none := rfl

@[simp] theorem failure?_error {ε α : Type} (e : ε) :
    failure? (.error e : Except ε α) = some e := rfl

@[simp] theorem failure?_map {ε α β : Type} (x : Except ε α) (f : α → β) :
    failure? (x.map f) = failure? x := by
  cases x <;> rfl

/-- Of two things read one after the other the first failure counts. -/
theorem failure?_cons {ε α : Type} (x : Except ε α) (y : Except ε (List α)) :
    failure? (do let a ← x; return a :: (← y)) = (failure? x).or (failure? y) := by
  cases x <;> cases y <;> rfl

theorem failure?_eq_some_iff {ε α : Type} {x : Except ε α} {e : ε} :
    failure? x = some e ↔ x = .error e := by
  cases x <;> simp

theorem failure?_eq_none_iff {ε α : Type} {x : Except ε α} :
    failure? x = none ↔ ∃ a, x = .ok a := by
  cases x <;> simp

@[simp] theorem firstOffence_nil : firstOffence member [] = none := rfl

@[simp] theorem firstOffence_cons (n : TypeNode) (nodes : List TypeNode) :
    firstOffence member (n :: nodes) = (n.offence? member).or (firstOffence member nodes) := by
  rw [firstOffence, List.findSome?_cons]
  cases n.offence? member <;> rfl

@[simp] theorem firstOffence_append (nodes more : List TypeNode) :
    firstOffence member (nodes ++ more) =
      (firstOffence member nodes).or (firstOffence member more) :=
  List.findSome?_append

/-- Only the last segment of a path may have arguments. -/
theorem hasInnerArguments_eq (segments : List PathSegment) :
    hasInnerArguments segments = !segments.dropLast.all TypeReader.isPlain := by
  fun_induction hasInnerArguments segments with
  | case1 => rfl
  | case2 => rfl
  | case3 name turbofish arguments trailing rest hrest =>
    cases rest with
    | nil => exact absurd rfl hrest
    | cons s rest => rfl
  | case4 name rest hrest ih =>
    cases rest with
    | nil => exact absurd rfl hrest
    | cons s rest => exact ih

mutual

/-- The first offence in a type is the error that it is refused with. -/
theorem firstOffence_ofType (t : TypeExpr) :
    firstOffence member (ofType t) = failure? (resolve member t) := by
  cases t with
  | infer => rfl
  | path isGlobal segments =>
    rw [ofType, firstOffence_cons, resolve, hasInnerArguments_eq, offence?]
    cases h : segments.dropLast.all TypeReader.isPlain with
    | false => rfl
    | true => simpa using firstOffence_ofSegments segments h
  | tuple items trailing => simpa [ofType, offence?, resolve] using firstOffence_ofItems items
  | paren inner => simpa [ofType, offence?, resolve] using firstOffence_ofType inner
  | array element length => simpa [ofType, offence?, resolve] using firstOffence_ofType element
  | slice element => simpa [ofType, offence?, resolve] using firstOffence_ofType element
  | bound isParenthesized fragments => rfl
  | other fragments => rfl

theorem firstOffence_ofItems (items : List TypeExpr) :
    firstOffence member (ofItems items) = failure? (resolveItems member items) := by
  cases items with
  | nil => rfl
  | cons t rest =>
    rw [ofItems, firstOffence_append, firstOffence_ofType t, firstOffence_ofItems rest, resolveItems,
      failure?_cons]

theorem firstOffence_ofSegments (segments : List PathSegment)
    (h : segments.dropLast.all TypeReader.isPlain = true) :
    firstOffence member (ofSegments segments) = failure? (resolveLast member segments) := by
  match segments with
  | [] => rfl
  | [.plain _] => rfl
  | [.generic _ _ arguments _] =>
    rw [ofSegments, ofSegments, List.append_nil, firstOffence_ofArguments arguments, resolveLast]
  | .plain _ :: s :: rest => exact firstOffence_ofSegments (s :: rest) h
  | .generic .. :: _ :: _ => cases h

/-- The first offence in some arguments is the error that they are refused with. -/
theorem firstOffence_ofArguments (arguments : List TypeArgument) :
    firstOffence member (ofArguments arguments) =
      failure? (resolveArguments member arguments) := by
  cases arguments with
  | nil => rfl
  | cons a rest =>
    rw [resolveArguments, failure?_cons, ← firstOffence_ofArguments rest]
    cases a with
    | type t =>
      have ht := firstOffence_ofType t
      cases t with
      | infer => rfl
      | _ => simp [ofArguments, offence?, ht, resolveArgument]
    | literal ts => simp [ofArguments, offence?, resolveArgument]
    | lifetime name => simp [ofArguments, offence?, resolveArgument, TypeArgument.tokens]
    | other fragments => simp [ofArguments, offence?, resolveArgument, TypeArgument.tokens]

end

/-- Where only the last segment may carry arguments, names are all that comes before it. -/
theorem segments_cases {segments : List PathSegment}
    (h : segments.dropLast.all TypeReader.isPlain = true) :
    ∃ names : List String, segments = names.map .plain ∨
      ∃ name turbofish arguments trailing,
        segments = names.map .plain ++ [.generic name turbofish arguments trailing] := by
  match segments with
  | [] => exact ⟨[], .inl rfl⟩
  | [.plain name] => exact ⟨[name], .inl rfl⟩
  | [.generic name turbofish arguments trailing] => exact ⟨[], .inr ⟨_, _, _, _, rfl⟩⟩
  | .plain first :: s :: rest =>
    have htail : (s :: rest).dropLast.all TypeReader.isPlain = true := h
    obtain ⟨names, hnames | ⟨name, turbofish, arguments, trailing, hnames⟩⟩ := segments_cases htail
    · exact ⟨first :: names, .inl (by rw [hnames, List.map_cons])⟩
    · refine ⟨first :: names, .inr ⟨name, turbofish, arguments, trailing, ?_⟩⟩
      rw [hnames, List.map_cons, List.cons_append]
  | .generic .. :: _ :: _ => cases h

theorem all_isPlain_names (names : List String) :
    (names.map PathSegment.plain).all TypeReader.isPlain = true := by
  induction names with
  | nil => rfl
  | cons name names ih => exact ih

theorem ofSegments_names (names : List String) (rest : List PathSegment) :
    ofSegments (names.map .plain ++ rest) = ofSegments rest := by
  induction names with
  | nil => rfl
  | cons name names ih => exact ih

theorem firstOffence_ofItems_eq_none {items : List TypeExpr} :
    firstOffence member (ofItems items) = none ↔
      ∀ t ∈ items, firstOffence member (ofType t) = none := by
  induction items with
  | nil => simp [ofItems]
  | cons t rest ih => simp [ofItems, Option.or_eq_none_iff, ih]

theorem firstOffence_ofArguments_eq_none {arguments : List TypeArgument} :
    firstOffence member (ofArguments arguments) = none ↔
      (∀ a ∈ arguments, (∃ ts, a = .literal ts) ∨ ∃ t, a = .type t) ∧
        ∀ t, .type t ∈ arguments → firstOffence member (ofType t) = none := by
  induction arguments with
  | nil => simp [ofArguments]
  | cons a rest ih =>
    cases a with
    | type t =>
      cases t with
      | infer => simp [ofArguments, offence?, ofType]
      | _ => simp [ofArguments, offence?, ih, Option.or_eq_none_iff, and_left_comm]
    | literal ts => simp [ofArguments, offence?, ih]
    | lifetime name => simp [ofArguments, offence?]
    | other fragments => simp [ofArguments, offence?]

/-- A storable type has no node that cannot be stored. -/
theorem firstOffence_of_storable {t : TypeExpr} (h : t.Storable) :
    firstOffence member (ofType t) = none := by
  induction h with
  | paren _ ih => simpa [ofType, offence?] using ih
  | tuple trailing _ ih => simpa [ofType, offence?, firstOffence_ofItems_eq_none] using ih
  | slice _ ih => simpa [ofType, offence?] using ih
  | array length _ ih => simpa [ofType, offence?] using ih
  | names isGlobal names =>
    have hplain : (names.map PathSegment.plain).dropLast.all TypeReader.isPlain = true := by
      rw [← List.map_dropLast, all_isPlain_names]
    have hnodes := ofSegments_names names []
    rw [List.append_nil] at hnodes
    simp [ofType, offence?, hplain, hnodes, ofSegments]
  | generic isGlobal names name turbofish trailing hkind _ ih =>
    rw [ofType, firstOffence_cons, ofSegments_names, ofSegments, ofSegments, List.append_nil,
      offence?, List.dropLast_concat, if_pos (all_isPlain_names names), Option.none_or]
    exact firstOffence_ofArguments_eq_none.mpr ⟨hkind, ih⟩

mutual

/-- A type without an offence is storable. -/
theorem storable_of_firstOffence (t : TypeExpr) (h : firstOffence member (ofType t) = none) :
    t.Storable := by
  cases t with
  | infer => cases h
  | path isGlobal segments =>
    rw [ofType, firstOffence_cons, Option.or_eq_none_iff] at h
    obtain ⟨hplain, hnodes⟩ := h
    have hplain : segments.dropLast.all TypeReader.isPlain = true := by simpa [offence?] using hplain
    have htypes := storable_of_ofSegments segments hnodes
    obtain ⟨names, rfl | ⟨name, turbofish, arguments, trailing, rfl⟩⟩ := segments_cases hplain
    · exact .names isGlobal names
    · rw [ofSegments_names, ofSegments, ofSegments, List.append_nil] at hnodes
      refine .generic isGlobal names name turbofish trailing
        (firstOffence_ofArguments_eq_none.mp hnodes).1 fun t ht => ?_
      exact htypes name turbofish arguments trailing (by simp) t ht
  | tuple items trailing =>
    exact .tuple trailing (storable_of_ofItems items (by simpa [ofType, offence?] using h))
  | paren inner =>
    exact .paren (storable_of_firstOffence inner (by simpa [ofType, offence?] using h))
  | array element length =>
    exact .array length (storable_of_firstOffence element (by simpa [ofType, offence?] using h))
  | slice element =>
    exact .slice (storable_of_firstOffence element (by simpa [ofType, offence?] using h))
  | bound isParenthesized fragments => cases h
  | other fragments => cases h

theorem storable_of_ofItems (items : List TypeExpr) (h : firstOffence member (ofItems items) = none) :
    ∀ t ∈ items, t.Storable := by
  cases items with
  | nil => exact List.forall_mem_nil _
  | cons t rest =>
    rw [ofItems, firstOffence_append, Option.or_eq_none_iff] at h
    exact List.forall_mem_cons.mpr
      ⟨storable_of_firstOffence t h.1, storable_of_ofItems rest h.2⟩

theorem storable_of_ofSegments (segments : List PathSegment)
    (h : firstOffence member (ofSegments segments) = none) :
    ∀ name turbofish arguments trailing,
      PathSegment.generic name turbofish arguments trailing ∈ segments →
        ∀ t, .type t ∈ arguments → t.Storable := by
  cases segments with
  | nil => exact fun _ _ _ _ hmem => absurd hmem List.not_mem_nil
  | cons s rest =>
    intro name turbofish arguments trailing hmem
    cases s with
    | plain s =>
      exact storable_of_ofSegments rest h _ _ _ _ ((List.mem_cons.mp hmem).resolve_left nofun)
    | generic s colons as comma =>
      rw [ofSegments, firstOffence_append, Option.or_eq_none_iff] at h
      rcases List.mem_cons.mp hmem with heq | hmem
      · obtain ⟨-, -, rfl, -⟩ := PathSegment.generic.inj heq
        exact storable_of_ofArguments arguments h.1
      · exact storable_of_ofSegments rest h.2 _ _ _ _ hmem

theorem storable_of_ofArguments (arguments : List TypeArgument)
    (h : firstOffence member (ofArguments arguments) = none) :
    ∀ t, .type t ∈ arguments → t.Storable := by
  cases arguments with
  | nil => exact fun _ hmem => absurd hmem List.not_mem_nil
  | cons a rest =>
    intro t hmem
    have hnone := (firstOffence_ofArguments_eq_none.mp h).2
    rcases List.mem_cons.mp hmem with rfl | hmem
    · exact storable_of_firstOffence t (hnone t (List.mem_cons_self ..))
    · have hrest : firstOffence member (ofArguments rest) = none := by
        rw [firstOffence_ofArguments_eq_none] at h ⊢
        exact ⟨fun b hb => h.1 b (List.mem_cons_of_mem _ hb),
          fun u hu => h.2 u (List.mem_cons_of_mem _ hu)⟩
      exact storable_of_ofArguments rest hrest t hmem

end

/-- A type has a signature where it is storable, and else its first offence is the error. -/
theorem resolve_verdict (member : String) (t : TypeExpr) :
    ((∃ s, resolve member t = .ok s) ↔ t.Storable) ∧
      ∀ e, resolve member t = .error e ↔ firstOffence member (ofType t) = some e := by
  have hfirst : firstOffence member (ofType t) = failure? (resolve member t) := firstOffence_ofType t
  refine ⟨?_, fun e => ?_⟩
  · rw [← failure?_eq_none_iff, ← hfirst]
    exact ⟨storable_of_firstOffence t, firstOffence_of_storable⟩
  · rw [← failure?_eq_some_iff, ← hfirst]

end Signature

end RecordStore
