import RecordStore.Proofs.Derive.SelfType
import Mathlib.Data.List.Basic

/-!
The word `Self` among the tokens of a type. After naming it stays exactly where some use of it is no
type of its own; where there is no such use, naming comes to the same as spelling every `Self` as
the name of the model before anything else.
-/
namespace RecordStore

namespace Token

variable {w : String}

theorem anyMentions_eq (ts : List Token) : anyMentions w ts = ts.any (mentions w) := by
  induction ts with
  | nil => rfl
  | cons t rest ih => rw [anyMentions, ih, List.any_cons]

theorem anyMentions_append (ts us : List Token) :
    anyMentions w (ts ++ us) = (anyMentions w ts || anyMentions w us) := by
  simp only [anyMentions_eq, List.any_append]

theorem anyMentions_singleton (t : Token) : anyMentions w [t] = t.mentions w := by
  simp [anyMentions]

/-- Separators that do not mention a word add none. -/
theorem anyMentions_separated {separator : List Token} (h : anyMentions w separator = false)
    (trailing : Bool) (tss : List (List Token)) :
    anyMentions w (separated separator trailing tss) = tss.any (anyMentions w) := by
  fun_induction separated separator trailing tss with
  | case1 => rfl
  | case2 ts _ => simp [anyMentions_append, h]
  | case3 ts _ => simp
  | case4 ts us rest ih => simp [anyMentions_append, h, ih]

theorem anyMentions_listed {comma : Token} (h : comma.mentions w = false) (needsComma : Bool)
    (items : List (List Token × Bool)) :
    anyMentions w (listed comma needsComma items) = items.any (fun item => anyMentions w item.1) := by
  have hcomma (c : Bool) : anyMentions w (if c then [comma] else []) = false := by
    cases c <;> simp [anyMentions, h]
  fun_induction listed comma needsComma items with
  | case1 => rfl
  | case2 needsComma item hasComma rest ih =>
    simp only [anyMentions_append, hcomma, ih, Bool.false_or, Bool.or_false, List.any_cons]

theorem map_fst_withCommas {α : Type} (trailing : Bool) (items : List α) :
    (withCommas trailing items).map Prod.fst = items := by
  fun_induction withCommas trailing items with
  | case1 => rfl
  | case2 => rfl
  | case3 a b rest ih => simp [ih]

/-- Putting the lifetimes first takes no item away. -/
theorem anyMentions_lifetimesFirst {comma : Token} (h : comma.mentions w = false)
    (trailing : Bool) (items : List (Bool × List Token)) :
    anyMentions w (lifetimesFirst comma trailing items) =
      items.any (fun item => anyMentions w item.2) := by
  conv_rhs => rw [← map_fst_withCommas trailing items]
  unfold lifetimesFirst
  rw [anyMentions_listed h, List.any_append]
  simp only [List.any_map, List.any_filter, Function.comp_def]
  generalize withCommas trailing items = pairs
  induction pairs with
  | nil => rfl
  | cons p rest ih =>
    obtain ⟨⟨isLifetime, ts⟩, hasComma⟩ := p
    simp only [List.any_cons, ← ih]
    cases isLifetime <;> simp [Bool.or_assoc, Bool.or_left_comm]

end Token

namespace SelfType

open Token

variable {model : String}

theorem any_isFixed_loneUse (s : String) : (loneUse s).any SelfUse.isFixed = false := by
  unfold loneUse
  split <;> rfl

theorem any_isFixed_wordUse (s : String) : (wordUse s).any SelfUse.isFixed = (s == word) := by
  unfold wordUse
  split <;> simp_all [SelfUse.isFixed]

theorem any_isFixed_tokensUse (ts : List Token) :
    (tokensUse ts).any SelfUse.isFixed = anyMentions word ts := by
  unfold tokensUse
  split <;> simp_all [SelfUse.isFixed]

theorem renamed_ne (hmodel : model ≠ word) (s : String) : (renamed model s == word) = false := by
  unfold renamed
  split
  · simpa using hmodel
  · next h => simpa using h

/-- No type is `Self` after renaming, if the model is not called so. -/
theorem isSelf_rename (hmodel : model ≠ word) (t : TypeExpr) : isSelf (rename model t) = false := by
  cases t with
  | path isGlobal segments =>
    cases isGlobal with
    | true => rfl
    | false =>
      cases segments with
      | nil => rfl
      | cons s rest =>
        cases rest with
        | nil =>
          cases s with
          | plain n => exact renamed_ne hmodel n
          | generic => rfl
        | cons s' rest =>
          rw [rename_path]
          split
          · cases s <;> rfl
          · cases s <;> cases s' <;> rfl
  | _ => rfl

/-- The two colons of a path mention nothing. -/
theorem anyMentions_colons : anyMentions word (operator "::") = false := by decide

theorem anyMentions_pathTokens (isGlobal : Bool) (segments : List PathSegment) :
    anyMentions word (pathTokens isGlobal segments) =
      (segmentTokens segments).any (anyMentions word) := by
  rw [pathTokens, anyMentions_append, anyMentions_separated anyMentions_colons]
  cases isGlobal <;> simp [anyMentions_colons, anyMentions]

theorem anyMentions_arguments (arguments : List TypeArgument) (trailing : Bool) :
    anyMentions word (operator "::" ++ .punct '<' false ::
        lifetimesFirst .comma trailing (argumentTokens arguments) ++ [.punct '>' false]) =
      (argumentTokens arguments).any (fun a => anyMentions word a.2) := by
  have hcomma : mentions word .comma = false := rfl
  simp [anyMentions_append, anyMentions_colons, anyMentions_lifetimesFirst hcomma, anyMentions,
    mentions]

theorem anyMentions_generic (n : String) (turbofish : Bool) (arguments : List TypeArgument)
    (trailing : Bool) :
    anyMentions word (PathSegment.generic n turbofish arguments trailing).tokens =
      (n == word || (argumentTokens arguments).any (fun a => anyMentions word a.2)) := by
  have hcomma : mentions word .comma = false := rfl
  rw [PathSegment.tokens]
  cases turbofish <;>
    simp [anyMentions_append, anyMentions_colons, anyMentions_lifetimesFirst hcomma, anyMentions,
      mentions]

theorem any_segmentTokens_of_isThrough {segments : List PathSegment}
    (h : isThrough segments = true) :
    (segmentTokens segments).any (anyMentions word) = true := by
  match segments with
  | .plain n :: _ :: _ =>
    have hn : (n == word) = true := h
    rw [segmentTokens, List.any_cons, PathSegment.tokens, anyMentions_singleton, mentions, hn,
      Bool.true_or]
  | .generic n .. :: _ :: _ =>
    have hn : (n == word) = true := h
    rw [segmentTokens, List.any_cons, anyMentions_generic, hn, Bool.true_or, Bool.true_or]

theorem any_isFixed_receiver (t : TypeExpr) :
    (if isSelf t then [.implied] else uses t).any SelfUse.isFixed =
      (uses t).any SelfUse.isFixed := by
  split
  · next h =>
    rw [eq_self_of_isSelf h]
    rfl
  · rfl

theorem any_isFixed_of_isThrough {segments : List PathSegment} (h : isThrough segments = true) :
    (usesInSegments segments).any SelfUse.isFixed = true := by
  match segments with
  | .plain s :: _ :: _ =>
    have hs : (s == word) = true := h
    rw [usesInSegments, List.any_append, any_isFixed_wordUse, hs, Bool.true_or]
  | .generic s .. :: _ :: _ =>
    have hs : (s == word) = true := h
    rw [usesInSegments, List.append_assoc, List.any_append, any_isFixed_wordUse, hs, Bool.true_or]

/-- A path that goes on from `Self` begins with it. -/
theorem any_isFixed_beyond (isGlobal : Bool) (segments : List PathSegment) :
    ((if !isGlobal && isThrough segments then [SelfUse.beyond segments] else []) ++
        usesInSegments segments).any SelfUse.isFixed =
      (usesInSegments segments).any SelfUse.isFixed := by
  split
  · next h =>
    have hthrough : isThrough segments = true := (Bool.and_eq_true_iff.mp h).2
    rw [List.any_append, any_isFixed_of_isThrough hthrough, Bool.or_true]
  · rfl

mutual

/-- After naming, `Self` is among the tokens of a type where some use of it is fixed. -/
theorem anyMentions_rename (hmodel : model ≠ word) (t : TypeExpr) :
    anyMentions word (rename model t).tokens = (uses t).any SelfUse.isFixed := by
  cases t with
  | infer =>
    rw [rename, uses, TypeExpr.tokens]
    rfl
  | path isGlobal segments =>
    match isGlobal, segments with
    | true, segments =>
      rw [uses_global, rename_global, TypeExpr.tokens, anyMentions_pathTokens,
        any_renameInSegments hmodel]
    | false, [] =>
      have hrename : rename model (.path false []) = .path false [] := rfl
      rw [hrename, TypeExpr.tokens, anyMentions_pathTokens, segmentTokens]
      rfl
    | false, [.plain n] =>
      rw [uses_plain, rename_plain, TypeExpr.tokens, anyMentions_pathTokens, any_isFixed_loneUse]
      simp [segmentTokens, PathSegment.tokens, anyMentions, mentions, renamed_ne hmodel]
    | false, [.generic n turbofish arguments trailing] =>
      rw [uses_generic, rename_generic, TypeExpr.tokens, anyMentions_pathTokens, List.any_append,
        any_isFixed_loneUse, ← any_renameInArguments hmodel]
      simp [segmentTokens, anyMentions_generic, renamed_ne hmodel]
    | false, s :: s' :: rest =>
      rw [rename_path, uses_path, TypeExpr.tokens, anyMentions_pathTokens]
      split
      · next h => exact any_segmentTokens_of_isThrough h
      · exact any_renameInSegments hmodel _
  | tuple items trailing =>
    rw [rename, uses, TypeExpr.tokens, anyMentions_singleton, mentions,
      anyMentions_separated rfl, any_renameInItems hmodel]
  | paren inner =>
    rw [rename, uses, TypeExpr.tokens, anyMentions_singleton, mentions, anyMentions_rename hmodel]
  | array element length =>
    rw [rename, uses, TypeExpr.tokens, anyMentions_singleton, mentions, anyMentions_append,
      anyMentions, anyMentions_rename hmodel, anyMentions_renameInFragments hmodel, List.any_append]
    rfl
  | slice element =>
    rw [rename, uses, TypeExpr.tokens, anyMentions_singleton, mentions, anyMentions_rename hmodel]
  | bound isParenthesized fragments =>
    cases isParenthesized with
    | true =>
      rw [rename, uses, TypeExpr.tokens, anyMentions_singleton, mentions,
        anyMentions_renameInFragments hmodel]
    | false => rw [rename, uses, TypeExpr.tokens, anyMentions_renameInFragments hmodel]
  | other fragments => rw [rename, uses, TypeExpr.tokens, anyMentions_renameInFragments hmodel]

theorem any_renameInItems (hmodel : model ≠ word) (ts : List TypeExpr) :
    (itemTokens (renameInItems model ts)).any (anyMentions word) =
      (usesInItems ts).any SelfUse.isFixed := by
  cases ts with
  | nil => simp only [renameInItems, itemTokens, usesInItems, List.any_nil]
  | cons t rest =>
    rw [renameInItems, itemTokens, usesInItems, List.any_cons, List.any_append,
      anyMentions_rename hmodel, any_renameInItems hmodel]

theorem any_renameInSegments (hmodel : model ≠ word) (segments : List PathSegment) :
    (segmentTokens (renameInSegments model segments)).any (anyMentions word) =
      (usesInSegments segments).any SelfUse.isFixed := by
  cases segments with
  | nil => simp only [renameInSegments, segmentTokens, usesInSegments, List.any_nil]
  | cons s rest =>
    cases s with
    | plain n =>
      rw [renameInSegments, segmentTokens, usesInSegments, List.any_cons, List.any_append,
        any_renameInSegments hmodel, any_isFixed_wordUse, PathSegment.tokens,
        anyMentions_singleton, mentions]
    | generic n turbofish arguments trailing =>
      rw [renameInSegments, segmentTokens, usesInSegments, List.any_cons, List.any_append,
        List.any_append, any_renameInSegments hmodel, any_isFixed_wordUse, anyMentions_generic,
        any_renameInArguments hmodel]

theorem any_renameInArguments (hmodel : model ≠ word) (arguments : List TypeArgument) :
    (argumentTokens (renameInArguments model arguments)).any (fun a => anyMentions word a.2) =
      (usesInArguments arguments).any SelfUse.isFixed := by
  cases arguments with
  | nil => simp only [renameInArguments, argumentTokens, usesInArguments, List.any_nil]
  | cons a rest =>
    cases a with
    | type t =>
      rw [renameInArguments, argumentTokens, usesInArguments, List.any_cons, List.any_append,
        any_renameInArguments hmodel, TypeArgument.tokens, anyMentions_rename hmodel]
    | literal ts =>
      rw [renameInArguments, argumentTokens, usesInArguments, List.any_cons, List.any_append,
        any_renameInArguments hmodel, TypeArgument.tokens, any_isFixed_tokensUse]
    | lifetime n =>
      rw [renameInArguments, argumentTokens, usesInArguments, List.any_cons, List.any_append,
        any_renameInArguments hmodel, TypeArgument.tokens, any_isFixed_wordUse]
      simp [lifetime, anyMentions, mentions]
    | other fragments =>
      rw [renameInArguments, argumentTokens, usesInArguments, List.any_cons, List.any_append,
        any_renameInArguments hmodel, TypeArgument.tokens, anyMentions_renameInFragments hmodel]

/-- After renaming, `Self` is mentioned just where it was used in a fixed way. -/
theorem anyMentions_renameInFragments (hmodel : model ≠ word) (fragments : List Fragment) :
    anyMentions word (fragmentTokens (renameInFragments model fragments)) =
      (usesInFragments fragments).any SelfUse.isFixed := by
  cases fragments with
  | nil => simp only [renameInFragments, fragmentTokens, usesInFragments, List.any_nil, anyMentions]
  | cons f rest =>
    cases f with
    | token t =>
      rw [renameInFragments, fragmentTokens, usesInFragments, List.any_append, anyMentions_append,
        anyMentions_renameInFragments hmodel rest, Fragment.tokens, any_isFixed_tokensUse]
    | group d content =>
      rw [renameInFragments, fragmentTokens, usesInFragments, List.any_append, anyMentions_append,
        anyMentions_renameInFragments hmodel rest, Fragment.tokens, anyMentions_singleton, mentions,
        anyMentions_renameInFragments hmodel content]
    | type t =>
      rw [renameInFragments, fragmentTokens, usesInFragments, List.any_append, anyMentions_append,
        anyMentions_renameInFragments hmodel rest, Fragment.tokens, anyMentions_rename hmodel]
    | path isGlobal segments =>
      rw [renameInFragments, fragmentTokens, usesInFragments, List.any_append, anyMentions_append,
        anyMentions_renameInFragments hmodel rest, Fragment.tokens, anyMentions_pathTokens,
        any_renameInSegments hmodel, any_isFixed_beyond]
    | arguments arguments trailing =>
      rw [renameInFragments, fragmentTokens, usesInFragments, List.any_append, anyMentions_append,
        anyMentions_renameInFragments hmodel rest, Fragment.tokens, anyMentions_arguments,
        any_renameInArguments hmodel]
    | receiver reference t =>
      rw [renameInFragments, fragmentTokens, usesInFragments, List.any_append, anyMentions_append,
        anyMentions_renameInFragments hmodel rest, Fragment.tokens, isSelf_rename hmodel,
        List.any_append, any_isFixed_tokensUse]
      simp only [Bool.false_eq_true, if_false, List.cons_append, anyMentions, mentions,
        Bool.false_or, anyMentions_append, anyMentions_rename hmodel, any_isFixed_receiver]
    | withClause part clause =>
      rw [renameInFragments, fragmentTokens, usesInFragments, List.any_append, List.any_append,
        anyMentions_append, anyMentions_renameInFragments hmodel rest, Fragment.tokens,
        anyMentions_append, anyMentions_renameInFragments hmodel part,
        anyMentions_renameInFragments hmodel clause, Bool.or_comm (List.any _ _)]

end

end SelfType

end RecordStore
