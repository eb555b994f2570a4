import RecordStore.Proofs.Derive.SelfTokens

/-!
Spelling `Self` as the name of a model. Where `Self` is only used as a type of its own, naming it
gives the type in which it is spelled out; and a type in which it is spelled out has no use of it
and is named as itself.
-/
namespace RecordStore

namespace SelfType

open Token

mutual

def spellToken (model : String) : Token → Token
  | .ident s => .ident (renamed model s)
  | .punct c joint => .punct c joint
  | .literal s => .literal s
  | .group d content => .group d (spellTokens model content)

def spellTokens (model : String) : List Token → List Token
  | [] => []
  | t :: rest => spellToken model t :: spellTokens model rest

end

mutual

def spell (model : String) : TypeExpr → TypeExpr
  | .infer => .infer
  | .path isGlobal segments => .path isGlobal (spellInSegments model segments)
  | .tuple items trailing => .tuple (spellInItems model items) trailing
  | .paren inner => .paren (spell model inner)
  | .array element length => .array (spell model element) (spellInFragments model length)
  | .slice element => .slice (spell model element)
  | .bound isParenthesized fragments => .bound isParenthesized (spellInFragments model fragments)
  | .other fragments => .other (spellInFragments model fragments)

def spellInItems (model : String) : List TypeExpr → List TypeExpr
  | [] => []
  | t :: rest => spell model t :: spellInItems model rest

def spellInSegments (model : String) : List PathSegment → List PathSegment
  | [] => []
  | .plain n :: rest => .plain (renamed model n) :: spellInSegments model rest
  | .generic n turbofish arguments trailing :: rest =>
    .generic (renamed model n) turbofish (spellInArguments model arguments) trailing ::
      spellInSegments model rest

def spellInArguments (model : String) : List TypeArgument → List TypeArgument
  | [] => []
  | .type t :: rest => .type (spell model t) :: spellInArguments model rest
  | .literal ts :: rest => .literal (spellTokens model ts) :: spellInArguments model rest
  | .lifetime n :: rest => .lifetime (renamed model n) :: spellInArguments model rest
  | .other fragments :: rest =>
    .other (spellInFragments model fragments) :: spellInArguments model rest

def spellInFragments (model : String) : List Fragment → List Fragment
  | [] => []
  | .token t :: rest => .token (spellToken model t) :: spellInFragments model rest
  | .group d content :: rest =>
    .group d (spellInFragments model content) :: spellInFragments model rest
  | .type t :: rest => .type (spell model t) :: spellInFragments model rest
  | .path isGlobal segments :: rest =>
    .path isGlobal (spellInSegments model segments) :: spellInFragments model rest
  | .arguments arguments trailing :: rest =>
    .arguments (spellInArguments model arguments) trailing :: spellInFragments model rest
  | .receiver reference t :: rest =>
    .receiver (spellTokens model reference) (spell model t) :: spellInFragments model rest
  | .withClause part clause :: rest =>
    .withClause (spellInFragments model part) (spellInFragments model clause) ::
      spellInFragments model rest

end

variable {model : String}

theorem renamed_of_ne {n : String} (h : (n == word) = false) : renamed model n = n := by
  simp [renamed, h]

mutual

theorem spellToken_of_not_mentions (t : Token) (h : t.mentions word = false) :
    spellToken model t = t := by
  cases t with
  | ident s => rw [spellToken, renamed_of_ne h]
  | group d content => rw [spellToken, spellTokens_of_not_mentions content h]
  | _ => rfl

theorem spellTokens_of_not_mentions (ts : List Token) (h : anyMentions word ts = false) :
    spellTokens model ts = ts := by
  cases ts with
  | nil => rfl
  | cons t rest =>
    obtain ⟨ht, hrest⟩ := Bool.or_eq_false_iff.mp h
    rw [spellTokens, spellToken_of_not_mentions t ht, spellTokens_of_not_mentions rest hrest]

end

def AllNamed (us : List SelfUse) : Prop := us.any SelfUse.isFixed = false

theorem allNamed_append {us vs : List SelfUse} :
    AllNamed (us ++ vs) ↔ AllNamed us ∧ AllNamed vs := by
  simp only [AllNamed, List.any_append, Bool.or_eq_false_iff]

theorem allNamed_wordUse {n : String} : AllNamed (wordUse n) ↔ (n == word) = false := by
  rw [AllNamed, any_isFixed_wordUse]

theorem allNamed_tokensUse {ts : List Token} :
    AllNamed (tokensUse ts) ↔ anyMentions word ts = false := by
  rw [AllNamed, any_isFixed_tokensUse]

mutual

/-- Where no use is fixed, naming `Self` is spelling it. -/
theorem rename_eq_spell (t : TypeExpr) (h : AllNamed (uses t)) : rename model t = spell model t := by
  cases t with
  | infer => rfl
  | path isGlobal segments =>
    match isGlobal, segments with
    | true, segments =>
      rw [uses_global] at h
      rw [rename_global, renameInSegments_eq_spell segments h, spell]
    | false, [] => rfl
    | false, [.plain n] => rfl
    | false, [.generic n turbofish arguments trailing] =>
      rw [uses_generic, allNamed_append] at h
      rw [rename_generic, renameInArguments_eq_spell arguments h.2, spell, spellInSegments,
        spellInSegments]
    | false, s :: s' :: rest =>
      rw [uses_path] at h
      rw [rename_path, spell]
      split at h
      · cases h
      · next hthrough => rw [if_neg hthrough, renameInSegments_eq_spell _ h]
  | tuple items trailing => rw [rename, spell, renameInItems_eq_spell items h]
  | paren inner => rw [rename, spell, rename_eq_spell inner h]
  | array element length =>
    rw [uses, allNamed_append] at h
    rw [rename, spell, rename_eq_spell element h.1, renameInFragments_eq_spell length h.2]
  | slice element => rw [rename, spell, rename_eq_spell element h]
  | bound isParenthesized fragments =>
    rw [rename, spell, renameInFragments_eq_spell fragments h]
  | other fragments => rw [rename, spell, renameInFragments_eq_spell fragments h]

theorem renameInItems_eq_spell (ts : List TypeExpr) (h : AllNamed (usesInItems ts)) :
    renameInItems model ts = spellInItems model ts := by
  cases ts with
  | nil => rfl
  | cons t rest =>
    rw [usesInItems, allNamed_append] at h
    rw [renameInItems, spellInItems, rename_eq_spell t h.1, renameInItems_eq_spell rest h.2]

theorem renameInSegments_eq_spell (segments : List PathSegment)
    (h : AllNamed (usesInSegments segments)) :
    renameInSegments model segments = spellInSegments model segments := by
  cases segments with
  | nil => rfl
  | cons s rest =>
    cases s with
    | plain n =>
      rw [usesInSegments, allNamed_append, allNamed_wordUse] at h
      rw [renameInSegments, spellInSegments, renamed_of_ne h.1, renameInSegments_eq_spell rest h.2]
    | generic n turbofish arguments trailing =>
      rw [usesInSegments, allNamed_append, allNamed_append, allNamed_wordUse] at h
      obtain ⟨⟨hn, harguments⟩, hrest⟩ := h
      rw [renameInSegments, spellInSegments, renamed_of_ne hn,
        renameInArguments_eq_spell arguments harguments, renameInSegments_eq_spell rest hrest]

theorem renameInArguments_eq_spell (arguments : List TypeArgument)
    (h : AllNamed (usesInArguments arguments)) :
    renameInArguments model arguments = spellInArguments model arguments := by
  cases arguments with
  | nil => rfl
  | cons a rest =>
    cases a with
    | type t =>
      rw [usesInArguments, allNamed_append] at h
      rw [renameInArguments, spellInArguments, rename_eq_spell t h.1,
        renameInArguments_eq_spell rest h.2]
    | literal ts =>
      rw [usesInArguments, allNamed_append, allNamed_tokensUse] at h
      rw [renameInArguments, spellInArguments, spellTokens_of_not_mentions ts h.1,
        renameInArguments_eq_spell rest h.2]
    | lifetime n =>
      rw [usesInArguments, allNamed_append, allNamed_wordUse] at h
      rw [renameInArguments, spellInArguments, renamed_of_ne h.1,
        renameInArguments_eq_spell rest h.2]
    | other fragments =>
      rw [usesInArguments, allNamed_append] at h
      rw [renameInArguments, spellInArguments, renameInFragments_eq_spell fragments h.1,
        renameInArguments_eq_spell rest h.2]

/-- Where `Self` is only a type of its own, renaming is spelling it out. -/
theorem renameInFragments_eq_spell (fragments : List Fragment)
    (h : AllNamed (usesInFragments fragments)) :
    renameInFragments model fragments = spellInFragments model fragments := by
  cases fragments with
  | nil => rfl
  | cons f rest =>
    cases f with
    | token t =>
      rw [usesInFragments, allNamed_append, allNamed_tokensUse, anyMentions_singleton] at h
      rw [renameInFragments, spellInFragments, spellToken_of_not_mentions t h.1,
        renameInFragments_eq_spell rest h.2]
    | group d content =>
      rw [usesInFragments, allNamed_append] at h
      rw [renameInFragments, spellInFragments, renameInFragments_eq_spell content h.1,
        renameInFragments_eq_spell rest h.2]
    | type t =>
      rw [usesInFragments, allNamed_append] at h
      rw [renameInFragments, spellInFragments, rename_eq_spell t h.1,
        renameInFragments_eq_spell rest h.2]
    | path isGlobal segments =>
      rw [usesInFragments, allNamed_append, allNamed_append] at h
      rw [renameInFragments, spellInFragments, renameInSegments_eq_spell segments h.1.2,
        renameInFragments_eq_spell rest h.2]
    | arguments arguments trailing =>
      rw [usesInFragments, allNamed_append] at h
      rw [renameInFragments, spellInFragments, renameInArguments_eq_spell arguments h.1,
        renameInFragments_eq_spell rest h.2]
    | receiver reference t =>
      rw [usesInFragments, allNamed_append, allNamed_append, allNamed_tokensUse] at h
      obtain ⟨⟨hreference, ht⟩, hrest⟩ := h
      have ht : AllNamed (uses t) := by rwa [AllNamed, any_isFixed_receiver] at ht
      rw [renameInFragments, spellInFragments, spellTokens_of_not_mentions reference hreference,
        rename_eq_spell t ht, renameInFragments_eq_spell rest hrest]
    | withClause part clause =>
      rw [usesInFragments, allNamed_append, allNamed_append] at h
      obtain ⟨⟨hclause, hpart⟩, hrest⟩ := h
      rw [renameInFragments, spellInFragments, renameInFragments_eq_spell part hpart,
        renameInFragments_eq_spell clause hclause, renameInFragments_eq_spell rest hrest]

end

theorem exists_spellInSegments (model : String) (s s' : PathSegment) (rest : List PathSegment) :
    ∃ u u' us, spellInSegments model (s :: s' :: rest) = u :: u' :: us := by
  cases s <;> cases s' <;> exact ⟨_, _, _, rfl⟩

theorem not_isThrough_spellInSegments (hmodel : model ≠ word) (segments : List PathSegment) :
    isThrough (spellInSegments model segments) = false := by
  match segments with
  | [] => rfl
  | [.plain _] | [.generic ..] => rfl
  | .plain n :: .plain _ :: _ | .plain n :: .generic .. :: _ => exact renamed_ne hmodel n
  | .generic n .. :: .plain _ :: _ | .generic n .. :: .generic .. :: _ => exact renamed_ne hmodel n

/-- Nothing is `Self` after it was spelled out. -/
theorem isSelf_spell (hmodel : model ≠ word) (t : TypeExpr) : isSelf (spell model t) = false := by
  cases t with
  | path isGlobal segments =>
    cases isGlobal with
    | true => rfl
    | false =>
      cases segments with
      | nil => rfl
      | cons s rest =>
        cases rest with
        | nil =>
          cases s with
          | plain n => exact renamed_ne hmodel n
          | generic => rfl
        | cons s' rest => cases s <;> cases s' <;> rfl
  | _ => rfl

theorem loneUse_renamed (hmodel : model ≠ word) (n : String) : loneUse (renamed model n) = [] := by
  simp [loneUse, renamed_ne hmodel]

theorem wordUse_renamed (hmodel : model ≠ word) (n : String) : wordUse (renamed model n) = [] := by
  simp [wordUse, renamed_ne hmodel]

theorem renamed_renamed (hmodel : model ≠ word) (n : String) :
    renamed model (renamed model n) = renamed model n := renamed_of_ne (renamed_ne hmodel n)

mutual

theorem mentions_spellToken (hmodel : model ≠ word) (t : Token) :
    (spellToken model t).mentions word = false := by
  cases t with
  | ident s => exact renamed_ne hmodel s
  | group d content => exact anyMentions_spellTokens hmodel content
  | _ => rfl

theorem anyMentions_spellTokens (hmodel : model ≠ word) (ts : List Token) :
    anyMentions word (spellTokens model ts) = false := by
  cases ts with
  | nil => rfl
  | cons t rest =>
    rw [spellTokens, anyMentions, mentions_spellToken hmodel t, anyMentions_spellTokens hmodel rest,
      Bool.false_or]

end

theorem tokensUse_spellTokens (hmodel : model ≠ word) (ts : List Token) :
    tokensUse (spellTokens model ts) = [] := by
  simp [tokensUse, anyMentions_spellTokens hmodel]

mutual

/-- A type in which `Self` is spelled out has no use of it, and is named as itself. -/
theorem spelled (hmodel : model ≠ word) (t : TypeExpr) :
    uses (spell model t) = [] ∧ rename model (spell model t) = spell model t := by
  cases t with
  | infer => exact ⟨rfl, rfl⟩
  | path isGlobal segments =>
    have hsegments := spelledSegments hmodel segments
    match isGlobal, segments with
    | true, segments =>
      rw [spell, uses_global, rename_global, hsegments.1, hsegments.2]
      exact ⟨rfl, rfl⟩
    | false, [] => exact ⟨rfl, rfl⟩
    | false, [.plain n] =>
      rw [spell, spellInSegments, spellInSegments, uses_plain, rename_plain,
        loneUse_renamed hmodel, renamed_renamed hmodel]
      exact ⟨rfl, rfl⟩
    | false, [.generic n turbofish arguments trailing] =>
      obtain ⟨huses, hrename⟩ := spelledArguments hmodel arguments
      rw [spell, spellInSegments, spellInSegments, uses_generic, rename_generic, huses, hrename,
        loneUse_renamed hmodel, renamed_renamed hmodel]
      exact ⟨rfl, rfl⟩
    | false, s :: s' :: rest =>
      have hthrough := not_isThrough_spellInSegments hmodel (s :: s' :: rest)
      obtain ⟨u, u', us, hus⟩ := exists_spellInSegments model s s' rest
      rw [hus] at hsegments hthrough
      rw [spell, hus, uses_path, rename_path, hthrough, hsegments.1, hsegments.2]
      exact ⟨rfl, rfl⟩
  | tuple items trailing =>
    obtain ⟨huses, hrename⟩ := spelledItems hmodel items
    rw [spell, uses, rename, huses, hrename]
    exact ⟨rfl, rfl⟩
  | paren inner =>
    obtain ⟨huses, hrename⟩ := spelled hmodel inner
    rw [spell, uses, rename, huses, hrename]
    exact ⟨rfl, rfl⟩
  | array element length =>
    obtain ⟨huses, hrename⟩ := spelled hmodel element
    obtain ⟨huses', hrename'⟩ := spelledFragments hmodel length
    rw [spell, uses, rename, huses, hrename, huses', hrename']
    exact ⟨rfl, rfl⟩
  | slice element =>
    obtain ⟨huses, hrename⟩ := spelled hmodel element
    rw [spell, uses, rename, huses, hrename]
    exact ⟨rfl, rfl⟩
  | bound isParenthesized fragments =>
    obtain ⟨huses, hrename⟩ := spelledFragments hmodel fragments
    rw [spell, uses, rename, huses, hrename]
    exact ⟨rfl, rfl⟩
  | other fragments =>
    obtain ⟨huses, hrename⟩ := spelledFragments hmodel fragments
    rw [spell, uses, rename, huses, hrename]
    exact ⟨rfl, rfl⟩

theorem spelledItems (hmodel : model ≠ word) (ts : List TypeExpr) :
    usesInItems (spellInItems model ts) = [] ∧
      renameInItems model (spellInItems model ts) = spellInItems model ts := by
  cases ts with
  | nil => exact ⟨rfl, rfl⟩
  | cons t rest =>
    obtain ⟨huses, hrename⟩ := spelled hmodel t
    obtain ⟨huses', hrename'⟩ := spelledItems hmodel rest
    rw [spellInItems, usesInItems, renameInItems, huses, huses', hrename, hrename']
    exact ⟨rfl, rfl⟩

theorem spelledSegments (hmodel : model ≠ word) (segments : List PathSegment) :
    usesInSegments (spellInSegments model segments) = [] ∧
      renameInSegments model (spellInSegments model segments) = spellInSegments model segments := by
  cases segments with
  | nil => exact ⟨rfl, rfl⟩
  | cons s rest =>
    obtain ⟨huses, hrename⟩ := spelledSegments hmodel rest
    cases s with
    | plain n =>
      rw [spellInSegments, usesInSegments, renameInSegments, wordUse_renamed hmodel, huses, hrename]
      exact ⟨rfl, rfl⟩
    | generic n turbofish arguments trailing =>
      obtain ⟨huses', hrename'⟩ := spelledArguments hmodel arguments
      rw [spellInSegments, usesInSegments, renameInSegments, wordUse_renamed hmodel, huses, hrename,
        huses', hrename']
      exact ⟨rfl, rfl⟩

theorem spelledArguments (hmodel : model ≠ word) (arguments : List TypeArgument) :
    usesInArguments (spellInArguments model arguments) = [] ∧
      renameInArguments model (spellInArguments model arguments) =
        spellInArguments model arguments := by
  cases arguments with
  | nil => exact ⟨rfl, rfl⟩
  | cons a rest =>
    obtain ⟨huses, hrename⟩ := spelledArguments hmodel rest
    cases a with
    | type t =>
      obtain ⟨huses', hrename'⟩ := spelled hmodel t
      rw [spellInArguments, usesInArguments, renameInArguments, huses, hrename, huses', hrename']
      exact ⟨rfl, rfl⟩
    | literal ts =>
      rw [spellInArguments, usesInArguments, renameInArguments, tokensUse_spellTokens hmodel, huses,
        hrename]
      exact ⟨rfl, rfl⟩
    | lifetime n =>
      rw [spellInArguments, usesInArguments, renameInArguments, wordUse_renamed hmodel, huses,
        hrename]
      exact ⟨rfl, rfl⟩
    | other fragments =>
      obtain ⟨huses', hrename'⟩ := spelledFragments hmodel fragments
      rw [spellInArguments, usesInArguments, renameInArguments, huses, hrename, huses', hrename']
      exact ⟨rfl, rfl⟩

/-- Where `Self` is spelled out, there is none to use and none to rename. -/
theorem spelledFragments (hmodel : model ≠ word) (fragments : List Fragment) :
    usesInFragments (spellInFragments model fragments) = [] ∧
      renameInFragments model (spellInFragments model fragments) =
        spellInFragments model fragments := by
  cases fragments with
  | nil => exact ⟨rfl, rfl⟩
  | cons f rest =>
    obtain ⟨huses, hrename⟩ := spelledFragments hmodel rest
    cases f with
    | token t =>
      have htoken : tokensUse [spellToken model t] = [] := tokensUse_spellTokens hmodel [t]
      rw [spellInFragments, usesInFragments, renameInFragments, htoken, huses, hrename]
      exact ⟨rfl, rfl⟩
    | group d content =>
      obtain ⟨huses', hrename'⟩ := spelledFragments hmodel content
      rw [spellInFragments, usesInFragments, renameInFragments, huses, hrename, huses', hrename']
      exact ⟨rfl, rfl⟩
    | type t =>
      obtain ⟨huses', hrename'⟩ := spelled hmodel t
      rw [spellInFragments, usesInFragments, renameInFragments, huses, hrename, huses', hrename']
      exact ⟨rfl, rfl⟩
    | path isGlobal segments =>
      obtain ⟨huses', hrename'⟩ := spelledSegments hmodel segments
      rw [spellInFragments, usesInFragments, renameInFragments, huses, hrename, huses', hrename',
        not_isThrough_spellInSegments hmodel, Bool.and_false]
      exact ⟨rfl, rfl⟩
    | arguments arguments trailing =>
      obtain ⟨huses', hrename'⟩ := spelledArguments hmodel arguments
      rw [spellInFragments, usesInFragments, renameInFragments, huses, hrename, huses', hrename']
      exact ⟨rfl, rfl⟩
    | receiver reference t =>
      obtain ⟨huses', hrename'⟩ := spelled hmodel t
      rw [spellInFragments, usesInFragments, renameInFragments, huses, hrename, huses', hrename',
        tokensUse_spellTokens hmodel, isSelf_spell hmodel]
      exact ⟨rfl, rfl⟩
    | withClause part clause =>
      obtain ⟨huses', hrename'⟩ := spelledFragments hmodel part
      obtain ⟨huses'', hrename''⟩ := spelledFragments hmodel clause
      rw [spellInFragments, usesInFragments, renameInFragments, huses, hrename, huses', hrename',
        huses'', hrename'']
      exact ⟨rfl, rfl⟩

end

end SelfType

end RecordStore
