import RecordStore.Proofs.Derive.SignatureText

/-!
The texts of signatures are canonical: each is the text of a type with that signature, and two types
have one text if and only if they have one signature, which is the case if they differ in nothing
but parentheses, commas at the end, colons before arguments and angle brackets around nothing.
-/
namespace RecordStore

open Lexer Reader

/-- Where tokens stand among others, at any depth. -/
inductive Token.Occurs (all : List Token) : List Token → Prop where
  | here : Occurs all all
  | later {t : Token} {rest : List Token} (h : Occurs all (t :: rest)) : Occurs all rest
  | inside {d : Delimiter} {content rest : List Token} (h : Occurs all (.group d content :: rest)) :
    Occurs all content

theorem HaveWords.of_occurs {all ts : List Token} (h : HaveWords all)
    (hoccurs : Token.Occurs all ts) : HaveWords ts := by
  induction hoccurs with
  | here => exact h
  | later _ ih => exact ih.2
  | inside _ ih =>
    rw [HaveWords, Token.HasWords] at ih
    exact ih.1

/-- Whether a type is read somewhere in a text. -/
def TypeExpr.ReadIn (source : String) (t : TypeExpr) : Prop :=
  ∃ all ts, Lexer.tokens? source = some all ∧ Token.Occurs all ts ∧
    ∃ fuel n plus unfinished input,
      (Readers.level fuel n).type plus ⟨ts, unfinished⟩ = .ok (t, input)

theorem TypeExpr.readIn_of_parse {source : String} {t : TypeExpr}
    (h : TypeExpr.parse? source = some t) : t.ReadIn source := by
  obtain ⟨ts, htokens, hread⟩ := TypeExpr.parse?_eq_some.mp h
  exact ⟨ts, ts, htokens, .here, _, _, true, none, _, hread⟩

mutual

/-- A type without what its signature does not show. -/
def TypeExpr.bare : TypeExpr → TypeExpr
  | .infer => .infer
  | .path isGlobal segments => .path isGlobal (bareSegments segments)
  | .tuple items _ => .tuple (bareItems items) false
  | .paren inner => inner.bare
  | .array element length => .array element.bare (Fragment.ofTokens (fragmentTokens length))
  | .slice element => .slice element.bare
  | .bound isParenthesized fragments => .bound isParenthesized fragments
  | .other fragments => .other fragments

def bareItems : List TypeExpr → List TypeExpr
  | [] => []
  | t :: rest => t.bare :: bareItems rest

def PathSegment.bare : PathSegment → PathSegment
  | .plain name => .plain name
  | .generic name _ arguments _ =>
    if arguments.isEmpty then .plain name else .generic name false (bareArguments arguments) false

def bareSegments : List PathSegment → List PathSegment
  | [] => []
  | s :: rest => s.bare :: bareSegments rest

def TypeArgument.bare : TypeArgument → TypeArgument
  | .type t => .type t.bare
  | .literal ts => .literal ts
  | .lifetime name => .lifetime name
  | .other fragments => .other fragments

def bareArguments : List TypeArgument → List TypeArgument
  | [] => []
  | a :: rest => a.bare :: bareArguments rest

end

namespace Signature

variable {member : String}

/-- The text of a signature is parsed as a type that has the signature. -/
theorem parse_text {source : String} {t : TypeExpr} {s : Signature} (h : t.ReadIn source)
    (hrereads : t.Rereads) (hs : resolve member t = .ok s) :
    ∃ u, TypeExpr.parse? s.text = some u ∧ ∀ member, resolve member u = .ok s := by
  obtain ⟨all, ts, htokens, hoccurs, fuel, n, plus, unfinished, input, hread⟩ := h
  have hwords := (Lexer.haveWords_of_tokens htokens).of_occurs hoccurs
  have hspelled : s.Spelled :=
    ((Readers.level_finds member fuel n).1 plus hwords hread hrereads hs).1
  obtain ⟨c, rest, hhead, -, hmark⟩ := exists_head hspelled
  have hparse (member : String) :
      ∃ u, TypeExpr.parse? s.text = some u ∧ resolve member u = .ok s := by
    obtain ⟨ts, hspans, hreads⟩ := textReads_of_spelled member s hspelled [] (.inl rfl)
    have htokens : Lexer.tokens? s.text = some ts :=
      tokens_of_spans hspans (by simpa [hhead] using hmark)
    obtain ⟨u, hu, hresolve⟩ := hreads.takes (Nat.le_refl _) (Nat.le_refl _) .nil
    rw [List.append_nil] at hu
    exact ⟨u, TypeExpr.parse?_eq_some.mpr ⟨ts, htokens, hu⟩, hresolve⟩
  obtain ⟨u, hu, -⟩ := hparse member
  refine ⟨u, hu, fun member => ?_⟩
  obtain ⟨u', hu', hresolve⟩ := hparse member
  obtain rfl : u = u' := Option.some.inj (hu.symm.trans hu')
  exact hresolve

def endingIn (args : List TypeArgument) : List String → List PathSegment
  | [] => []
  | [name] => [if args.isEmpty then .plain name else .generic name false args false]
  | name :: rest => .plain name :: endingIn args rest

mutual

/-- The bare type that a signature is that of, if its literals and lengths are lexed. -/
def written : Signature → TypeExpr
  | .path isGlobal names signatures =>
    .path isGlobal (endingIn (writtenArguments signatures) names)
  | .tuple items => .tuple (writtenItems items) false
  | .array element length =>
    .array element.written (Fragment.ofTokens ((Lexer.tokens? length).getD []))
  | .slice element => .slice element.written

def writtenItems : List Signature → List TypeExpr
  | [] => []
  | s :: rest => s.written :: writtenItems rest

def writtenArgument : SignatureArgument → TypeArgument
  | .type s => .type s.written
  | .const text => .literal ((Lexer.tokens? text).getD [])

def writtenArguments : List SignatureArgument → List TypeArgument
  | [] => []
  | a :: rest => writtenArgument a :: writtenArguments rest

end

theorem fragmentTokens_ofTokens (ts : List Token) : fragmentTokens (Fragment.ofTokens ts) = ts := by
  induction ts with
  | nil => rw [Fragment.ofTokens, List.map_nil, fragmentTokens]
  | cons t ts ih =>
    rw [Fragment.ofTokens, List.map_cons, fragmentTokens, Fragment.tokens]
    exact congrArg (t :: ·) ih

theorem segmentName_bare (segs : List PathSegment) :
    (bareSegments segs).map segmentName = segs.map segmentName := by
  induction segs with
  | nil => rfl
  | cons seg segs ih =>
    rw [bareSegments, List.map_cons, List.map_cons, ih]
    cases seg with
    | plain => rfl
    | generic =>
      rw [PathSegment.bare]
      split <;> rfl

theorem hasInnerArguments_bare {segs : List PathSegment} (h : hasInnerArguments segs = false) :
    hasInnerArguments (bareSegments segs) = false := by
  induction segs with
  | nil => rfl
  | cons seg segs ih =>
    cases segs with
    | nil => rfl
    | cons next rest =>
      cases seg with
      | plain name => exact ih h
      | generic => cases h

theorem bareArguments_isEmpty (args : List TypeArgument) :
    (bareArguments args).isEmpty = args.isEmpty := by
  cases args <;> rfl

mutual

/-- A bare type is what the signature of the type tells of it, and has that signature too. -/
theorem bare_of_resolve (member : String) :
    (t : TypeExpr) → (s : Signature) → t.Rereads → resolve member t = .ok s →
      t.bare = s.written ∧ ∀ m, resolve m t.bare = .ok s
  | .infer, _, _, hs => nomatch hs
  | .bound .., _, _, hs => nomatch hs
  | .other _, _, _, hs => nomatch hs
  | .paren inner, s, hrereads, hs => bare_of_resolve member inner s hrereads hs
  | .path isGlobal segs, s, hrereads, hs => by
    rw [resolve] at hs
    split at hs
    · cases hs
    · next hinner =>
      obtain ⟨signatures, hlast, rfl⟩ := Data.map_eq_ok.mp hs
      have hinner := Bool.eq_false_iff.mpr hinner
      obtain ⟨hbare, hresolve⟩ :=
        bareSegments_of_resolve member segs signatures hrereads hinner hlast
      rw [TypeExpr.bare]
      refine ⟨congrArg (TypeExpr.path isGlobal) hbare, fun m => ?_⟩
      rw [resolve, hasInnerArguments_bare hinner, hresolve m, segmentName_bare]
      rfl
  | .tuple items _, s, hrereads, hs => by
    obtain ⟨signatures, hitems, rfl⟩ := Data.map_eq_ok.mp hs
    obtain ⟨hbare, hresolve⟩ := bareItems_of_resolve member items signatures hrereads hitems
    rw [TypeExpr.bare]
    refine ⟨congrArg (TypeExpr.tuple · false) hbare, fun m => ?_⟩
    rw [resolve, hresolve m]
    rfl
  | .array element length, s, hrereads, hs => by
    obtain ⟨e, he, rfl⟩ := Data.map_eq_ok.mp hs
    obtain ⟨hbare, hresolve⟩ := bare_of_resolve member element e hrereads.1 he
    rw [TypeExpr.bare]
    refine ⟨?_, fun m => ?_⟩
    · rw [written, hbare, hrereads.2.1]
      rfl
    · rw [resolve, hresolve m, fragmentTokens_ofTokens]
      rfl
  | .slice element, s, hrereads, hs => by
    obtain ⟨e, he, rfl⟩ := Data.map_eq_ok.mp hs
    obtain ⟨hbare, hresolve⟩ := bare_of_resolve member element e hrereads he
    rw [TypeExpr.bare]
    refine ⟨congrArg TypeExpr.slice hbare, fun m => ?_⟩
    rw [resolve, hresolve m]
    rfl

theorem bareItems_of_resolve (member : String) :
    (items : List TypeExpr) → (signatures : List Signature) → ItemsReread items →
      resolveItems member items = .ok signatures →
        bareItems items = writtenItems signatures ∧
          ∀ m, resolveItems m (bareItems items) = .ok signatures
  | [], _, _, hs => by
    cases hs
    exact ⟨rfl, fun _ => rfl⟩
  | t :: rest, _, hrereads, h => by
    obtain ⟨s, hs, h⟩ := Data.bind_eq_ok.mp h
    obtain ⟨more, hmore, h⟩ := Data.bind_eq_ok.mp h
    cases h
    obtain ⟨hbare, hresolve⟩ := bare_of_resolve member t s hrereads.1 hs
    obtain ⟨hbares, hresolves⟩ := bareItems_of_resolve member rest more hrereads.2 hmore
    exact ⟨congrArg₂ List.cons hbare hbares, fun m => Data.bind_eq_ok.mpr
      ⟨s, hresolve m, Data.bind_eq_ok.mpr ⟨more, hresolves m, rfl⟩⟩⟩

/-- A bare path has the names of the path and ends in the arguments of its signature. -/
theorem bareSegments_of_resolve (member : String) :
    (segs : List PathSegment) → (signatures : List SignatureArgument) → SegmentsReread segs →
      hasInnerArguments segs = false → resolveLast member segs = .ok signatures →
        bareSegments segs = endingIn (writtenArguments signatures) (segs.map segmentName) ∧
          ∀ m, resolveLast m (bareSegments segs) = .ok signatures
  | [], _, _, _, hs => by
    cases hs
    exact ⟨rfl, fun _ => rfl⟩
  | [.plain name], _, _, _, hs => by
    cases hs
    exact ⟨rfl, fun _ => rfl⟩
  | [.generic name turbofish args trailing], signatures, hrereads, _, hs => by
    obtain ⟨hbare, hresolve⟩ := bareArguments_of_resolve member args signatures hrereads.1 hs
    simp only [bareSegments, PathSegment.bare, List.map_cons, List.map_nil, segmentName, endingIn,
      ← hbare, bareArguments_isEmpty]
    split
    · next hempty =>
      obtain rfl := List.isEmpty_iff.mp hempty
      cases hs
      exact ⟨trivial, fun _ => rfl⟩
    · exact ⟨trivial, hresolve⟩
  | .plain name :: next :: rest, signatures, hrereads, hinner, hs => by
    obtain ⟨hbare, hresolve⟩ :=
      bareSegments_of_resolve member (next :: rest) signatures hrereads hinner hs
    exact ⟨congrArg (PathSegment.plain name :: ·) hbare, hresolve⟩
  | .generic .. :: _ :: _, _, _, hinner, _ => nomatch hinner

theorem bareArguments_of_resolve (member : String) :
    (args : List TypeArgument) → (signatures : List SignatureArgument) → ArgumentsReread args →
      resolveArguments member args = .ok signatures →
        bareArguments args = writtenArguments signatures ∧
          ∀ m, resolveArguments m (bareArguments args) = .ok signatures
  | [], _, _, hs => by
    cases hs
    exact ⟨rfl, fun _ => rfl⟩
  | a :: rest, _, hrereads, h => by
    obtain ⟨s, hs, h⟩ := Data.bind_eq_ok.mp h
    obtain ⟨more, hmore, h⟩ := Data.bind_eq_ok.mp h
    cases h
    obtain ⟨hbare, hresolve⟩ := bareArgument_of_resolve member a s hrereads.1 hs
    obtain ⟨hbares, hresolves⟩ := bareArguments_of_resolve member rest more hrereads.2 hmore
    exact ⟨congrArg₂ List.cons hbare hbares, fun m => Data.bind_eq_ok.mpr
      ⟨s, hresolve m, Data.bind_eq_ok.mpr ⟨more, hresolves m, rfl⟩⟩⟩

theorem bareArgument_of_resolve (member : String) :
    (a : TypeArgument) → (s : SignatureArgument) → a.Rereads → resolveArgument member a = .ok s →
      a.bare = writtenArgument s ∧ ∀ m, resolveArgument m a.bare = .ok s
  | .type t, _, hrereads, h => by
    obtain ⟨s, hs, rfl⟩ := resolveArgument_type_eq_ok.mp h
    obtain ⟨hbare, hresolve⟩ := bare_of_resolve member t s hrereads hs
    exact ⟨congrArg TypeArgument.type hbare, fun m =>
      resolveArgument_type_eq_ok.mpr ⟨s, hresolve m, rfl⟩⟩
  | .literal ts, _, hrereads, hs => by
    cases hs
    rw [writtenArgument, hrereads]
    exact ⟨rfl, fun _ => rfl⟩
  | .lifetime _, _, _, hs => nomatch hs
  | .other _, _, _, hs => nomatch hs

end

theorem step_literal (r : Readers) (hfuel : 0 < r.fuel) (s : String) :
    ExpressionReader.step r true .assign ⟨[.literal s], none⟩ =
      .ok (⟨.literal, [.token (.literal s)], false⟩, ⟨[], none⟩) := by
  obtain ⟨fuel, _, _, _, _, _, _, _, _⟩ := r
  obtain _ | k := fuel
  · cases hfuel
  · rfl

/-- A literal is read again as the length of an array if it is lexed as itself. -/
theorem lengthRereads_literal {s : String} (h : Lexer.tokens? s = some [.literal s]) :
    LengthRereads [.literal s] := by
  refine ⟨h, fun fuel n hfuel hn => ?_⟩
  obtain _ | n := n
  · cases hn
  · have hfuel : 0 < (Readers.level fuel n).fuel := by
      rw [Readers.level_fuel]
      omega
    exact ⟨_, step_literal (Readers.level fuel n) hfuel s, fragmentTokens_ofTokens [.literal s]⟩

theorem text_oneTuple (s : Signature) : (Signature.tuple [s]).text = "(" ++ s.text ++ ",)" := by
  simp [text, texts]

/-- The text of a signature is that of a type with that signature. Two types have one text exactly
if they have one signature, and exactly if they are the same when bare. In particular a tuple of one
item is not confused with that item in parentheses. -/
theorem text_canonical {source source' member member' : String} {t t' : TypeExpr}
    {s s' : Signature} (hread : t.ReadIn source) (hrereads : t.Rereads)
    (hs : resolve member t = .ok s) (hread' : t'.ReadIn source') (hrereads' : t'.Rereads)
    (hs' : resolve member' t' = .ok s') :
    (∃ u, TypeExpr.parse? s.text = some u ∧
      ∀ m, resolve m u = .ok s ∧ (resolve m u).map text = .ok s.text) ∧
    (s.text = s'.text ↔ s = s') ∧ (s.text = s'.text ↔ t.bare = t'.bare) ∧
    ∀ trailing, resolve member (.paren t) = .ok s ∧
      resolve member (.tuple [t] trailing) = .ok (.tuple [s]) ∧
        (Signature.tuple [s]).text ≠ s.text := by
  obtain ⟨u, hu, hresolve⟩ := parse_text hread hrereads hs
  obtain ⟨u', hu', hresolve'⟩ := parse_text hread' hrereads' hs'
  obtain ⟨hbare, hbareResolve⟩ := bare_of_resolve member t s hrereads hs
  obtain ⟨hbare', hbareResolve'⟩ := bare_of_resolve member' t' s' hrereads' hs'
  have htext : s.text = s'.text ↔ s = s' := by
    refine ⟨fun h => ?_, congrArg text⟩
    rw [h] at hu
    obtain rfl : u = u' := Option.some.inj (hu.symm.trans hu')
    exact Except.ok.inj ((hresolve member).symm.trans (hresolve' member))
  refine ⟨⟨u, hu, fun m => ⟨hresolve m, by rw [hresolve m]; rfl⟩⟩, htext, htext.trans ?_,
    fun trailing => ⟨hs, ?_, fun h => ?_⟩⟩
  · refine ⟨fun h => hbare.trans (h ▸ hbare'.symm), fun h => ?_⟩
    rw [← h] at hbareResolve'
    exact Except.ok.inj ((hbareResolve member).symm.trans (hbareResolve' member))
  · rw [resolve, resolveItems, hs]
    rfl
  · have hlength := congrArg String.length (text_oneTuple s ▸ h)
    have hparen : 0 < "(".length := by decide
    rw [String.length_append, String.length_append] at hlength
    omega

/-- Arrays of a tuple of one item, and of that item in parentheses. -/
theorem text_canonical_array :
    ∃ t t' s s', TypeExpr.parse? "[(::Key<-1>,); 4]" = some t ∧ t.Rereads ∧
      resolve "field" t = .ok s ∧ TypeExpr.parse? "([(::Key::<-1,>); 4])" = some t' ∧
        t'.Rereads ∧ resolve "field" t' = .ok s' ∧
          ((∃ u, TypeExpr.parse? s.text = some u ∧
            ∀ m, resolve m u = .ok s ∧ (resolve m u).map text = .ok s.text) ∧
          (s.text = s'.text ↔ s = s') ∧ (s.text = s'.text ↔ t.bare = t'.bare) ∧
          ∀ trailing, resolve "field" (.paren t) = .ok s ∧
            resolve "field" (.tuple [t] trailing) = .ok (.tuple [s]) ∧
              (Signature.tuple [s]).text ≠ s.text) := by
  let minusOne : List Token := [.punct '-' false, .literal "1"]
  let key (written : Bool) : TypeExpr :=
    .path true [.generic "Key" written [.literal minusOne] written]
  let t : TypeExpr := .array (.tuple [key false] true) [.token (.literal "4")]
  let t' : TypeExpr := .paren (.array (.paren (key true)) [.token (.literal "4")])
  have hparse : TypeExpr.parse? "[(::Key<-1>,); 4]" = some t := TypeExpr.parse?_eq_some.mpr
    ⟨[.group .bracket [.group .paren (Token.operator "::" ++ .ident "Key" :: .punct '<' true ::
      minusOne ++ [.punct '>' true, .comma]), .punct ';' false, .literal "4"]], rfl, rfl⟩
  have hparse' : TypeExpr.parse? "([(::Key::<-1,>); 4])" = some t' := TypeExpr.parse?_eq_some.mpr
    ⟨[.group .paren [.group .bracket [.group .paren (Token.operator "::" ++ .ident "Key" ::
      .punct ':' true :: .punct ':' true :: .punct '<' true ::
        minusOne ++ [.punct ',' true, .punct '>' false]), .punct ';' false, .literal "4"]]],
      rfl, rfl⟩
  have hlength : LengthRereads (fragmentTokens (Fragment.ofTokens [.literal "4"])) := by
    rw [fragmentTokens_ofTokens]
    exact lengthRereads_literal rfl
  have htext : Token.textOf minusOne = "- 1" := by
    simp only [minusOne, Token.textOf, Token.text, Token.isJoint]
    rfl
  have hminusOne : Lexer.tokens? (Token.textOf minusOne) = some minusOne := by
    rw [htext]
    rfl
  have hkey (written : Bool) : (key written).Rereads := ⟨⟨hminusOne, trivial⟩, trivial⟩
  have hs : resolve "field" t =
      .ok (.array (.tuple [.path true ["Key"] [.const (Token.textOf minusOne)]]) _) := rfl
  have hs' : resolve "field" t' =
      .ok (.array (.path true ["Key"] [.const (Token.textOf minusOne)]) _) := rfl
  have hrereads : t.Rereads := ⟨⟨hkey false, trivial⟩, hlength⟩
  have hrereads' : t'.Rereads := ⟨hkey true, hlength⟩
  exact ⟨t, t', _, _, hparse, hrereads, hs, hparse', hrereads', hs',
    text_canonical (TypeExpr.readIn_of_parse hparse) hrereads hs
      (TypeExpr.readIn_of_parse hparse') hrereads' hs'⟩

end Signature

end RecordStore
