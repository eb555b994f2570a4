import RecordStore.Proofs.Source.Words
import RecordStore.Proofs.Source.Running
import RecordStore.Proofs.Field.Reading
import RecordStore.Derive.Signature
import Mathlib.Data.List.Forall2

/-!
What the text of a signature is made of, if the type that it is the signature of was read from a
text.
-/
namespace RecordStore

open Reader

/-- Whether the text of the length of an array holds the tokens of that length, and these are read
as an expression again, at every level of nesting that is enough for them. -/
def LengthRereads (ts : List Token) : Prop :=
  Lexer.tokens? (Token.textOf ts) = some ts ∧
    ∀ fuel n, 4 * Token.sizeOfAll ts + 8 ≤ fuel → 4 * Token.sizeOfAll ts + 8 ≤ n →
      ∃ e, (Readers.level fuel n).anyExpression ⟨ts, none⟩ = .ok (e, ⟨[], none⟩) ∧
        fragmentTokens e.fragments = ts

mutual

/-- Whether all literals and all lengths in a type that may have a signature are read again from
their texts. -/
def TypeExpr.Rereads : TypeExpr → Prop
  | .path _ segments => SegmentsReread segments
  | .tuple items _ => ItemsReread items
  | .paren inner => inner.Rereads
  | .array element length => element.Rereads ∧ LengthRereads (fragmentTokens length)
  | .slice element => element.Rereads
  | .infer => True
  | .bound .. => True
  | .other _ => True

def ItemsReread : List TypeExpr → Prop
  | [] => True
  | t :: rest => t.Rereads ∧ ItemsReread rest

def SegmentsReread : List PathSegment → Prop
  | [] => True
  | .plain _ :: rest => SegmentsReread rest
  | .generic _ _ arguments _ :: rest => ArgumentsReread arguments ∧ SegmentsReread rest

def TypeArgument.Rereads : TypeArgument → Prop
  | .type t => t.Rereads
  | .literal ts => Lexer.tokens? (Token.textOf ts) = some ts
  | .lifetime _ => True
  | .other _ => True

def ArgumentsReread : List TypeArgument → Prop
  | [] => True
  | a :: rest => a.Rereads ∧ ArgumentsReread rest

end

theorem itemsReread_iff {items : List TypeExpr} :
    ItemsReread items ↔ ∀ t ∈ items, t.Rereads := by
  induction items with
  | nil => simp [ItemsReread]
  | cons t rest ih => simp [ItemsReread, ih]

theorem argumentsReread_iff {args : List TypeArgument} :
    ArgumentsReread args ↔ ∀ a ∈ args, a.Rereads := by
  induction args with
  | nil => simp [ArgumentsReread]
  | cons a rest ih => simp [ArgumentsReread, ih]

namespace Signature

def Unresolved (member : String) (t : TypeExpr) : Prop := ∀ s, resolve member t ≠ .ok s

theorem unresolved_infer (member : String) : Unresolved member .infer := fun _ => nofun

theorem unresolved_other (member : String) (fragments : List Fragment) :
    Unresolved member (.other fragments) :=
  fun _ => nofun

theorem unresolved_bound (member : String) (isParenthesized : Bool) (fragments : List Fragment) :
    Unresolved member (.bound isParenthesized fragments) :=
  fun _ => nofun

def pathWords : List String := ["super", "self", "crate", "try"]

/-- Whether names may be those of a path. The last of them may have arguments, and the first is
preceded by two colons in a global path. -/
structure PathNames (isGlobal : Bool) (names : List String) (hasArguments : Bool) : Prop where
  ne_nil : names ≠ []
  words : ∀ name ∈ names, Lexer.IsWord name
  kinds : ∀ name ∈ names, name ∈ pathWords ∨ name = "Self" ∨ name ∉ reserved
  last : hasArguments = true → ∀ name ∈ names.getLast?, name = "Self" ∨ name ∉ reserved
  first : isGlobal = false → ∀ name ∈ names.head?, name ≠ "try"

mutual

/-- Whether the paths in a signature have the names of paths, and its literals and lengths are read
again. -/
def Spelled : Signature → Prop
  | .path isGlobal names arguments =>
    PathNames isGlobal names (!arguments.isEmpty) ∧ ArgumentsSpelled arguments
  | .tuple items => ItemsSpelled items
  | .array element length =>
    element.Spelled ∧ ∃ ts, length = Token.textOf ts ∧ LengthRereads ts
  | .slice element => element.Spelled

def ItemsSpelled : List Signature → Prop
  | [] => True
  | s :: rest => s.Spelled ∧ ItemsSpelled rest

def ArgumentSpelled : SignatureArgument → Prop
  | .type s => s.Spelled
  | .const text =>
    ∃ ts, IsLiteral ts ∧ text = Token.textOf ts ∧ Lexer.tokens? text = some ts

def ArgumentsSpelled : List SignatureArgument → Prop
  | [] => True
  | a :: rest => ArgumentSpelled a ∧ ArgumentsSpelled rest

end

theorem argumentsSpelled_iff {signatures : List SignatureArgument} :
    ArgumentsSpelled signatures ↔ ∀ a ∈ signatures, ArgumentSpelled a := by
  induction signatures with
  | nil => simp [ArgumentsSpelled]
  | cons a rest ih => simp [ArgumentsSpelled, ih]

theorem itemsSpelled_iff {signatures : List Signature} :
    ItemsSpelled signatures ↔ ∀ s ∈ signatures, s.Spelled := by
  induction signatures with
  | nil => simp [ItemsSpelled]
  | cons s rest ih => simp [ItemsSpelled, ih]

theorem forall₂_of_resolveArguments {member : String} {args : List TypeArgument}
    {signatures : List SignatureArgument} (h : resolveArguments member args = .ok signatures) :
    List.Forall₂ (fun a s => resolveArgument member a = .ok s) args signatures := by
  induction args generalizing signatures with
  | nil =>
    cases h
    exact .nil
  | cons a rest ih =>
    obtain ⟨s, hs, h⟩ := Data.bind_eq_ok.mp h
    obtain ⟨more, hmore, h⟩ := Data.bind_eq_ok.mp h
    cases h
    exact .cons hs (ih hmore)

theorem forall₂_of_resolveItems {member : String} {items : List TypeExpr}
    {signatures : List Signature} (h : resolveItems member items = .ok signatures) :
    List.Forall₂ (fun t s => resolve member t = .ok s) items signatures := by
  induction items generalizing signatures with
  | nil =>
    cases h
    exact .nil
  | cons t rest ih =>
    obtain ⟨s, hs, h⟩ := Data.bind_eq_ok.mp h
    obtain ⟨more, hmore, h⟩ := Data.bind_eq_ok.mp h
    cases h
    exact .cons hs (ih hmore)

theorem resolveArgument_type_eq_ok {member : String} {t : TypeExpr} {a : SignatureArgument} :
    resolveArgument member (.type t) = .ok a ↔ ∃ s, resolve member t = .ok s ∧ a = .type s := by
  cases t with
  | infer =>
    constructor
    · intro h
      cases h
    · rintro ⟨s, h, -⟩
      cases h
  | _ =>
    rw [resolveArgument, Data.map_eq_ok]
    · simp only [eq_comm]
    · intro heq
      cases heq

end Signature

open Signature

/-- Whether a reader leaves words behind, and what is made of that which it gives has a property, if
something can be made of it and it fulfils a condition. -/
def Reader.Finds {α β : Type} (make : α → Except ExpansionError β) (Q : α → Prop) (P : β → Prop)
    (x : Reader α) : Prop :=
  ∀ {input a input' b}, HaveWords input.tokens → x input = .ok (a, input') → Q a →
    make a = .ok b → P b ∧ HaveWords input'.tokens

abbrev Reader.FindsTypes (member : String) (x : Reader TypeExpr) : Prop :=
  Finds (resolve member) TypeExpr.Rereads Spelled x

abbrev Reader.FindsArguments (member : String) (x : Reader TypeArgument) : Prop :=
  Finds (resolveArgument member) TypeArgument.Rereads ArgumentSpelled x

namespace TypeReader

section

variable {r : Readers} {plus : Bool} {input input' : Input} {t : TypeExpr} {member : String}

/-- A reader that ends in something that is kept as its tokens. -/
theorem yields_other {α : Type} {x : Reader α} {f : α → List Fragment} :
    Yields (Unresolved member) (x >>= fun a => pure (.other (f a))) :=
  .after fun _ => .pure (unresolved_other _ _)

theorem yields_word (w : String) : Yields (· ≠ []) (word w) := by
  unfold word
  refine .after fun _ => .ite (.after fun _ => .pure ?_) ?_
  · exact List.cons_ne_nil _ _
  · intro input fs input' h
    cases h

theorem binder_cases {fragments : List Fragment} (h : binder? r input = .ok (fragments, input')) :
    fragments = [] ∧ input' = input ∨ fragments ≠ [] := by
  have hbinder : Yields (· ≠ []) (binder r) := by
    refine .bind (yields_word "for") fun start hstart => .after fun _ => .after fun _ =>
      .after fun _ => .pure ?_
    simp [hstart]
  unfold binder? at h
  obtain ⟨-, h⟩ | ⟨-, h⟩ := next_cases h
  · exact .inr (hbinder _ _ _ h)
  · cases h
    exact .inl ⟨rfl, rfl⟩

/-- A path after a binder is a bound. -/
theorem yields_boundPath {binder : List Fragment} (hbinder : binder ≠ []) :
    Yields (Unresolved member) (pathType r plus binder) := by
  unfold pathType
  refine .after fun _ => .ite yields_other <| .after fun _ => .after fun _ => .ite ?_ ?_
  · exact .after fun _ => yields_other
  refine .after fun _ => .ite yields_other ?_
  rw [if_neg (by simpa using hbinder)]
  exact .pure (unresolved_bound _ _ _)

/-- A bracketed part starts with no word. -/
theorem not_word_of_isGroup {d : Delimiter} {ts : List Token} (h : isGroup d ts) :
    isIdent ts = false ∧ ∀ words, isOneOf words ts = false := by
  match ts with
  | .group .. :: _ => exact ⟨rfl, fun words => List.any_eq_false.mpr fun _ _ => Bool.false_ne_true⟩

/-- What a type with a signature starts with, and what reads it. -/
theorem step_reads (h : step r plus input = .ok (t, input')) (ht : ¬ Unresolved member t) :
    (isGroup .paren input.tokens ∧ parenthesized r plus input = .ok (t, input')) ∨
      (((isIdent input.tokens || isOneOf ["super", "self", "Self", "crate"] input.tokens) ||
        startsWithAny ["::", "<"] input.tokens) ∧ pathType r plus [] input = .ok (t, input')) ∨
      isGroup .bracket input.tokens ∧ bracketed r input = .ok (t, input') := by
  have hother {x : Reader TypeExpr} {start : Input} (hx : Yields (Unresolved member) x)
      (hread : x start = .ok (t, input')) : False := ht (hx _ _ _ hread)
  unfold step at h
  -- apart from parentheses, paths and brackets, all that can be read has no signature; after a
  -- binder neither has a path
  obtain ⟨before, input₁, hget, h⟩ := bind_eq_ok.mp h
  cases hget
  obtain ⟨binder, input₂, hbinder, h⟩ := bind_eq_ok.mp h
  obtain ⟨-, h⟩ | ⟨hguard, h⟩ := next_cases h
  · exact (hother (.afterExpected _) h).elim
  obtain ⟨hparen, h⟩ | ⟨-, h⟩ := next_cases h
  · obtain ⟨hident, hwords⟩ := not_word_of_isGroup hparen
    obtain ⟨-, heq⟩ | hne := binder_cases hbinder
    · exact .inl ⟨heq ▸ hparen, heq ▸ h⟩
    · simp [hident, hwords, hne] at hguard
  obtain ⟨-, h⟩ | ⟨-, h⟩ := next_cases h
  · exact (hother yields_other h).elim
  obtain ⟨-, h⟩ | ⟨-, h⟩ := next_cases h
  · exact (hother (.after fun _ => yields_other) h).elim
  obtain ⟨hpath, h⟩ | ⟨-, h⟩ := next_cases h
  · obtain ⟨hnil, heq⟩ | hne := binder_cases hbinder
    · exact .inr (.inl ⟨heq ▸ hpath, hnil ▸ heq ▸ h⟩)
    · exact (hother (yields_boundPath hne) h).elim
  obtain ⟨-, h⟩ | ⟨-, h⟩ := next_cases h
  · refine (hother ?_ h).elim
    refine .after fun _ => .after fun _ => .after fun _ => .ite yields_other ?_
    exact .pure (unresolved_other _ _)
  obtain ⟨hbracket, h⟩ | ⟨-, h⟩ := next_cases h
  · obtain ⟨hident, hwords⟩ := not_word_of_isGroup hbracket
    obtain ⟨-, heq⟩ | hne := binder_cases hbinder
    · exact .inr (.inr ⟨heq ▸ hbracket, heq ▸ h⟩)
    · simp [hident, hwords, hne] at hguard
  refine (hother ?_ h).elim
  refine .after fun _ => .ite ?_ ?_
  · refine .after fun _ => .after fun _ => .ite ?_ ?_
    · exact .afterExpected _
    · exact .after fun _ => yields_other
  refine .after fun _ => .ite ?_ ?_
  · exact .after fun _ => .after fun _ => .after fun _ => yields_other
  refine .after fun _ => .ite yields_other ?_
  refine .after fun _ => .ite (.after fun _ => yields_other) ?_
  refine .after fun _ => .ite (.after fun _ => .pure (unresolved_infer _)) ?_
  refine .after fun _ => .ite yields_other ?_
  exact .expected _

/-- Items of a separated list are found as one item is. -/
theorem separatedUntil_finds {α β : Type} {make : α → Except ExpansionError β} {Q : α → Prop}
    {P : β → Prop} {isEnd : List Token → Bool} {separator : String} {item : Reader α}
    (hitem : Finds make Q P item)
    {n : Nat} {items : List α} {trailing : Bool} {bs : List β} {input input' : Input}
    (hwords : HaveWords input.tokens)
    (h : separatedUntil isEnd separator item n input = .ok ((items, trailing), input'))
    (hQ : ∀ a ∈ items, Q a) (hmake : List.Forall₂ (fun a b => make a = .ok b) items bs) :
    (∀ b ∈ bs, P b) ∧ HaveWords input'.tokens := by
  induction n generalizing items trailing bs input input' with
  | zero => cases h
  | succ n ih =>
    unfold separatedUntil at h
    obtain ⟨-, h⟩ | ⟨-, h⟩ := next_cases h
    · cases h
      cases hmake
      exact ⟨List.forall_mem_nil _, hwords⟩
    obtain ⟨a, after, ha, h⟩ := bind_eq_ok.mp h
    obtain ⟨-, h⟩ | ⟨-, h⟩ := next_cases h
    · cases h
      obtain ⟨b, rfl, hb⟩ : ∃ b, bs = [b] ∧ make a = .ok b := by
        cases hmake with
        | cons hb hrest =>
          cases hrest
          exact ⟨_, rfl, hb⟩
      obtain ⟨hP, hafter⟩ := hitem hwords ha (List.forall_mem_cons.mp hQ).1 hb
      exact ⟨by simpa using hP, hafter⟩
    obtain ⟨_, afterMark, hmark, h⟩ := bind_eq_ok.mp h
    obtain ⟨⟨rest, restTrailing⟩, last, hrest, h⟩ := bind_eq_ok.mp h
    cases h
    cases hmake with
    | cons hb hmake =>
      obtain ⟨hP, hafter⟩ := hitem hwords ha (List.forall_mem_cons.mp hQ).1 hb
      have hafter' : HaveWords afterMark.tokens := by
        rw [(mark_eq_ok hmark).2.2]
        exact hafter.drop _
      obtain ⟨hPs, hlast⟩ := ih hafter' hrest (List.forall_mem_cons.mp hQ).2 hmake
      exact ⟨List.forall_mem_cons.mpr ⟨hP, hPs⟩, hlast⟩

def namedSegment (r : Readers) (name : String) : Reader PathSegment := do
  if ← next fun ts => (!false && opensArguments ts) || opensTurbofish ts then
    let turbofish := !(← mark? "::").isEmpty
    let (arguments, trailing) ← arguments r
    return .generic name turbofish arguments trailing
  return .plain name

theorem namedSegment_reads {name : String} {seg : PathSegment}
    (h : namedSegment r name input = .ok (seg, input')) :
    seg = .plain name ∧ input' = input ∨
      ∃ turbofish args trailing start n, seg = .generic name turbofish args trailing ∧
        start.tokens = input.tokens.drop n ∧
          arguments r start = .ok ((args, trailing), input') := by
  unfold namedSegment at h
  obtain ⟨-, h⟩ | ⟨-, h⟩ := next_cases h
  · obtain ⟨fragments, start, hmark, h⟩ := bind_eq_ok.mp h
    obtain ⟨⟨args, trailing⟩, last, hargs, h⟩ := bind_eq_ok.mp h
    cases h
    right
    obtain ⟨-, -, hstart⟩ | ⟨-, -, rfl⟩ := mark?_cases hmark
    · exact ⟨_, _, _, start, _, rfl, hstart, hargs⟩
    · exact ⟨_, _, _, _, 0, rfl, rfl, hargs⟩
  · cases h
    exact .inl ⟨rfl, rfl⟩

/-- One segment of a path, and what is left for its arguments. -/
theorem segment_reads {seg : PathSegment} (h : segment r false input = .ok (seg, input')) :
    ∃ name rest, input.tokens = .ident name :: rest ∧
      ((name ∈ pathWords ∧ seg = .plain name ∧ input'.tokens = rest) ∨
        ((name = "Self" ∨ name ∉ reserved) ∧ (seg = .plain name ∧ input'.tokens = rest ∨
          ∃ turbofish args trailing start n, seg = .generic name turbofish args trailing ∧
            start.tokens = rest.drop n ∧
              arguments r start = .ok ((args, trailing), input')))) := by
  have hnamed {name : String} {rest : List Token}
      (h : namedSegment r name { input with tokens := rest } = .ok (seg, input')) :
      seg = .plain name ∧ input'.tokens = rest ∨
        ∃ turbofish args trailing start n, seg = .generic name turbofish args trailing ∧
          start.tokens = rest.drop n ∧ arguments r start = .ok ((args, trailing), input') :=
    (namedSegment_reads h).imp_left fun ⟨hseg, hinput⟩ => ⟨hseg, hinput ▸ rfl⟩
  unfold segment at h
  obtain ⟨hword, h⟩ | ⟨-, h⟩ := next_cases h
  · obtain ⟨name, after, hname, h⟩ := bind_eq_ok.mp h
    cases h
    obtain ⟨rest, htokens, rfl⟩ := anyIdent_eq_ok hname
    refine ⟨name, rest, htokens, .inl ⟨?_, rfl, rfl⟩⟩
    rw [htokens] at hword
    simpa [isOneOf, isWord, pathWords] using hword
  obtain ⟨hself, h⟩ | ⟨-, h⟩ := next_cases h
  · obtain ⟨name, after, hname, h⟩ := bind_eq_ok.mp h
    obtain ⟨rest, htokens, rfl⟩ := anyIdent_eq_ok hname
    rw [htokens] at hself
    exact ⟨name, rest, htokens, .inr ⟨.inl (eq_of_beq hself), hnamed h⟩⟩
  · obtain ⟨name, after, hname, h⟩ := bind_eq_ok.mp h
    obtain ⟨rest, htokens, hkind, rfl⟩ := ident_eq_ok hname
    exact ⟨name, rest, htokens, .inr ⟨.inr hkind, hnamed h⟩⟩

/-- What is read as arguments is spelled as their signatures are. -/
theorem arguments_finds (hargument : FindsArguments member r.argument)
    {args : List TypeArgument} {trailing : Bool} {signatures : List SignatureArgument}
    (hwords : HaveWords input.tokens) (h : arguments r input = .ok ((args, trailing), input'))
    (hrereads : ArgumentsReread args) (hargs : resolveArguments member args = .ok signatures) :
    ArgumentsSpelled signatures ∧ HaveWords input'.tokens := by
  unfold arguments at h
  obtain ⟨_, start, hopening, h⟩ := bind_eq_ok.mp h
  obtain ⟨_, last, hitems, h⟩ := bind_eq_ok.mp h
  obtain ⟨_, after, hclosing, h⟩ := bind_eq_ok.mp h
  cases h
  have hstart : HaveWords start.tokens := by
    rw [(mark_eq_ok hopening).2.2]
    exact hwords.drop _
  obtain ⟨hnames, hlast⟩ :=
    separatedUntil_finds hargument hstart hitems (argumentsReread_iff.mp hrereads)
      (forall₂_of_resolveArguments hargs)
  refine ⟨argumentsSpelled_iff.mpr hnames, ?_⟩
  rw [(mark_eq_ok hclosing).2.2]
  exact hlast.drop _

theorem yields_segments (n : Nat) : Yields (· ≠ []) (segments r false n) := by
  cases n with
  | zero => exact .refuse _
  | succ n =>
    unfold segments
    refine .after fun _ => .after fun _ => .ite ?_ (.pure (List.cons_ne_nil _ _))
    exact .after fun _ => .after fun _ => .pure (List.cons_ne_nil _ _)

/-- The names of a path that may have a signature, the first of which comes next. -/
theorem segments_finds (hargument : FindsArguments member r.argument)
    {n : Nat} {segs : List PathSegment} {signatures : List SignatureArgument}
    (hwords : HaveWords input.tokens) (h : segments r false n input = .ok (segs, input'))
    (hrereads : SegmentsReread segs) (hinner : hasInnerArguments segs = false)
    (hlast : resolveLast member segs = .ok signatures) :
    (∃ name rest, input.tokens = .ident name :: rest ∧ (segs.map segmentName).head? = some name) ∧
      PathNames true (segs.map segmentName) (!signatures.isEmpty) ∧
        ArgumentsSpelled signatures ∧ HaveWords input'.tokens := by
  induction n generalizing input segs with
  | zero => cases h
  | succ n ih =>
    unfold segments at h
    obtain ⟨first, after, hfirst, h⟩ := bind_eq_ok.mp h
    obtain ⟨name, rest, htokens, hcases⟩ := segment_reads hfirst
    rw [htokens] at hwords
    have hname : Lexer.IsWord name := hwords.1
    have hkind : name ∈ pathWords ∨ name = "Self" ∨ name ∉ reserved :=
      hcases.imp (fun h => h.1) fun h => h.1
    have hfirstName : segmentName first = name := by
      obtain ⟨-, rfl, -⟩ | ⟨-, ⟨rfl, -⟩ | ⟨_, _, _, _, _, rfl, -⟩⟩ := hcases <;> rfl
    obtain ⟨-, h⟩ | ⟨-, h⟩ := next_cases h
    · obtain ⟨_, skipped, hskip, h⟩ := bind_eq_ok.mp h
      cases hskip
      obtain ⟨more, last, hmore, h⟩ := bind_eq_ok.mp h
      cases h
      obtain ⟨second, others, rfl⟩ := List.exists_cons_of_ne_nil (yields_segments _ _ _ _ hmore)
      obtain ⟨rfl, hafter⟩ : first = .plain name ∧ after.tokens = rest := by
        obtain ⟨-, hplain⟩ | ⟨-, hplain | ⟨_, _, _, _, _, rfl, -⟩⟩ := hcases
        · exact hplain
        · exact hplain
        · cases hinner
      have hskipped : HaveWords (after.tokens.drop 2) := by
        rw [hafter]
        exact hwords.2.drop 2
      obtain ⟨-, hnames, hsignatures, hleft⟩ := ih hskipped hmore hrereads hinner hlast
      refine ⟨⟨name, rest, htokens, rfl⟩, ?_, hsignatures, hleft⟩
      exact ⟨List.cons_ne_nil _ _, List.forall_mem_cons.mpr ⟨hname, hnames.words⟩,
        List.forall_mem_cons.mpr ⟨hkind, hnames.kinds⟩, hnames.last, nofun⟩
    · cases h
      refine ⟨⟨name, rest, htokens, congrArg some hfirstName⟩, ?_⟩
      have hnames (hargs : (!signatures.isEmpty) = true → name = "Self" ∨ name ∉ reserved) :
          PathNames true [name] (!signatures.isEmpty) :=
        ⟨List.cons_ne_nil _ _, by simpa using hname, by simpa using hkind, by simpa using hargs,
          nofun⟩
      rw [List.map_singleton, hfirstName]
      obtain ⟨-, rfl, hafter⟩ | ⟨hkind, ⟨rfl, hafter⟩ | ⟨_, _, _, start, n, rfl, hstart, hargs⟩⟩ :=
        hcases
      · cases hlast
        exact ⟨hnames nofun, trivial, hafter ▸ hwords.2⟩
      · cases hlast
        exact ⟨hnames nofun, trivial, hafter ▸ hwords.2⟩
      · have hstart : HaveWords start.tokens := hstart ▸ hwords.2.drop n
        exact ⟨hnames fun _ => hkind, arguments_finds hargument hstart hargs hrereads.1 hlast⟩

variable {s : Signature}

/-- What is read as a path is spelled as its signature is. -/
theorem pathType_finds (hargument : FindsArguments member r.argument)
    (hwords : HaveWords input.tokens)
    (hstart : ((isIdent input.tokens || isOneOf ["super", "self", "Self", "crate"] input.tokens) ||
      startsWithAny ["::", "<"] input.tokens) = true)
    (h : pathType r plus [] input = .ok (t, input')) (hrereads : t.Rereads)
    (hs : resolve member t = .ok s) :
    s.Spelled ∧ HaveWords input'.tokens := by
  have hother {x : Reader TypeExpr} {start : Input} (hx : Yields (Unresolved member) x)
      (hread : x start = .ok (t, input')) : False := hx _ _ _ hread s hs
  unfold pathType at h
  obtain ⟨-, h⟩ | ⟨hqualified, h⟩ := next_cases h
  · exact (hother yields_other h).elim
  obtain ⟨⟨isGlobal, segs⟩, after, hpath, h⟩ := bind_eq_ok.mp h
  obtain ⟨-, h⟩ | ⟨-, h⟩ := next_cases h
  · exact (hother (.after fun _ => yields_other) h).elim
  obtain ⟨-, h⟩ | ⟨-, h⟩ := next_cases h
  · exact (hother yields_other h).elim
  cases h
  unfold path at hpath
  obtain ⟨colons, start, hcolons, hpath⟩ := bind_eq_ok.mp hpath
  obtain ⟨_, _, hsegments, hpath⟩ := bind_eq_ok.mp hpath
  cases hpath
  rw [resolve] at hs
  split at hs
  · cases hs
  · next hinner =>
    obtain ⟨signatures, hlast, rfl⟩ := Data.map_eq_ok.mp hs
    have hstartWords : HaveWords start.tokens := by
      obtain ⟨-, -, htokens⟩ | ⟨-, -, rfl⟩ := mark?_cases hcolons
      · rw [htokens]
        exact hwords.drop _
      · exact hwords
    obtain ⟨⟨name, rest, htokens, hhead⟩, hnames, hsignatures, hleft⟩ :=
      segments_finds hargument hstartWords hsegments hrereads (Bool.eq_false_iff.mpr hinner) hlast
    refine ⟨⟨⟨hnames.ne_nil, hnames.words, hnames.kinds, hnames.last, fun hglobal => ?_⟩,
      hsignatures⟩, hleft⟩
    rw [hhead]
    intro name' hname
    obtain rfl : name = name' := Option.some.inj hname
    obtain ⟨-, rfl, -⟩ | ⟨-, -, rfl⟩ := mark?_cases hcolons
    · cases hglobal
    · rw [htokens] at hstart
      rintro rfl
      simp [isIdent, reserved, isOneOf, isWord, startsWithAny, startsWith, startsWithChars]
        at hstart

theorem bracketed_finds (htype : FindsTypes member (r.type true))
    (hwords : HaveWords input.tokens) (h : bracketed r input = .ok (t, input'))
    (hrereads : t.Rereads) (hs : resolve member t = .ok s) :
    s.Spelled ∧ HaveWords input'.tokens := by
  obtain ⟨content, rest, inner, htokens, hread, hrest⟩ := inGroup_eq_ok h
  rw [htokens, HaveWords, Token.HasWords] at hwords
  rw [hrest]
  refine ⟨?_, hwords.2⟩
  obtain ⟨element, after, helement, hread⟩ := bind_eq_ok.mp hread
  obtain ⟨-, hread⟩ | ⟨-, hread⟩ := next_cases hread
  · obtain ⟨_, _, -, hread⟩ := bind_eq_ok.mp hread
    obtain ⟨_, _, -, hread⟩ := bind_eq_ok.mp hread
    cases hread
    obtain ⟨e, he, rfl⟩ := Data.map_eq_ok.mp hs
    exact ⟨(htype hwords.1 helement hrereads.1 he).1, _, rfl, hrereads.2⟩
  · cases hread
    obtain ⟨e, he, rfl⟩ := Data.map_eq_ok.mp hs
    exact (htype hwords.1 helement hrereads he).1

/-- What is read in parentheses is spelled as its signature is: a tuple, or the type itself. -/
theorem parenthesized_finds (htype : FindsTypes member (r.type true))
    (hwords : HaveWords input.tokens) (h : parenthesized r plus input = .ok (t, input'))
    (hrereads : t.Rereads) (hs : resolve member t = .ok s) :
    s.Spelled ∧ HaveWords input'.tokens := by
  have hother {x : Reader TypeExpr} {start : Input} (hx : Yields (Unresolved member) x)
      (hread : x start = .ok (t, input')) : False := hx _ _ _ hread s hs
  unfold parenthesized at h
  obtain ⟨u, after, hgroup, h⟩ := bind_eq_ok.mp h
  obtain ⟨content, rest, inner, htokens, hread, hrest⟩ := inGroup_eq_ok hgroup
  rw [htokens, HaveWords, Token.HasWords] at hwords
  have hsame : t = u ∧ input' = after := by
    split at h
    · refine (hother (.after fun _ => .ite (.pure (unresolved_bound _ _ _)) ?_) h).elim
      exact .pure (unresolved_other _ _)
    · next first =>
      cases first with
      | path =>
        obtain ⟨-, h⟩ | ⟨-, h⟩ := next_cases h
        · exact (hother yields_other h).elim
        · cases h
          exact ⟨rfl, rfl⟩
      | bound =>
        obtain ⟨-, h⟩ | ⟨-, h⟩ := next_cases h
        · exact (hother yields_other h).elim
        · cases h
          exact ⟨rfl, rfl⟩
      | _ =>
        cases h
        exact ⟨rfl, rfl⟩
    · cases h
      exact ⟨rfl, rfl⟩
  obtain ⟨rfl, rfl⟩ := hsame
  rw [hrest]
  refine ⟨?_, hwords.2⟩
  obtain ⟨-, hread⟩ | ⟨-, hread⟩ := next_cases hread
  · cases hread
    cases hs
    trivial
  obtain ⟨-, hread⟩ | ⟨-, hread⟩ := next_cases hread
  · obtain ⟨_, _, -, hread⟩ := bind_eq_ok.mp hread
    cases hread
    cases hs
  obtain ⟨-, hread⟩ | ⟨-, hread⟩ := next_cases hread
  · obtain ⟨_, _, -, hread⟩ := bind_eq_ok.mp hread
    cases hread
    cases hs
  obtain ⟨first, start, hfirst, hread⟩ := bind_eq_ok.mp hread
  obtain ⟨-, hread⟩ | ⟨-, hread⟩ := next_cases hread
  · obtain ⟨_, skipped, hskip, hread⟩ := bind_eq_ok.mp hread
    cases hskip
    obtain ⟨⟨items, trailing⟩, last, hitems, hread⟩ := bind_eq_ok.mp hread
    cases hread
    obtain ⟨signatures, hsignatures, rfl⟩ := Data.map_eq_ok.mp hs
    obtain ⟨s₁, hs₁, hsignatures⟩ := Data.bind_eq_ok.mp hsignatures
    obtain ⟨more, hmore, hsignatures⟩ := Data.bind_eq_ok.mp hsignatures
    cases hsignatures
    obtain ⟨hnames, hstart⟩ := htype hwords.1 hfirst hrereads.1 hs₁
    have hskipped : HaveWords (start.tokens.drop 1) := hstart.drop 1
    exact ⟨hnames, itemsSpelled_iff.mpr
      (separatedUntil_finds htype hskipped hitems (itemsReread_iff.mp hrereads.2)
        (forall₂_of_resolveItems hmore)).1⟩
  · cases hread
    exact (htype hwords.1 hfirst hrereads hs).1

theorem step_finds (htype : ∀ plus, FindsTypes member (r.type plus))
    (hargument : FindsArguments member r.argument) (plus : Bool) :
    FindsTypes member (step r plus) := by
  intro input t input' s hwords h hrereads hs
  obtain ⟨-, h⟩ | ⟨hstart, h⟩ | ⟨-, h⟩ := step_reads h fun hunresolved => hunresolved s hs
  · exact parenthesized_finds (htype true) hwords h hrereads hs
  · exact pathType_finds hargument hwords hstart h hrereads hs
  · exact bracketed_finds (htype true) hwords h hrereads hs

/-- What is read as an argument is spelled as its signature is, a type or a literal. -/
theorem argument_finds (htype : ∀ plus, FindsTypes member (r.type plus)) :
    FindsArguments member (argument r) := by
  intro input a input' s hwords h hrereads hs
  have hother {x : Reader TypeArgument} {start : Input}
      (hx : Yields (fun a => ∀ s, resolveArgument member a ≠ .ok s) x)
      (hread : x start = .ok (a, input')) : False := hx _ _ _ hread s hs
  have hunresolved (fragments : List Fragment) (s : SignatureArgument) :
      resolveArgument member (.other fragments) ≠ .ok s := nofun
  unfold argument at h
  obtain ⟨-, h⟩ | ⟨-, h⟩ := next_cases h
  · obtain ⟨name, _, -, h⟩ := bind_eq_ok.mp h
    cases h
    cases hs
  obtain ⟨hliteral, h⟩ | ⟨-, h⟩ := next_cases h
  · obtain ⟨ts, after, hread, h⟩ := bind_eq_ok.mp h
    cases h
    cases hs
    obtain ⟨hkind, hrest⟩ := literal_eq_ok hread
    exact ⟨⟨ts, hkind, rfl, hrereads⟩, hrest ▸ hwords.drop _⟩
  obtain ⟨-, h⟩ | ⟨-, h⟩ := next_cases h
  · obtain ⟨fragments, _, -, h⟩ := bind_eq_ok.mp h
    cases h
    cases hs
  obtain ⟨t, after, ht, h⟩ := bind_eq_ok.mp h
  obtain ⟨rfl, rfl⟩ : a = .type t ∧ input' = after := by
    split at h
    · obtain ⟨-, h⟩ | ⟨-, h⟩ := next_cases h
      · refine (hother (.after fun _ => .after fun _ => .ite ?_ ?_) h).elim
        · exact .after fun _ => .pure (hunresolved _)
        · exact .after fun _ => .pure (hunresolved _)
      obtain ⟨-, h⟩ | ⟨-, h⟩ := next_cases h
      · refine (hother (.after fun _ => .after fun _ => .pure (hunresolved _)) h).elim
      · cases h
        exact ⟨rfl, rfl⟩
    · cases h
      exact ⟨rfl, rfl⟩
  obtain ⟨e, he, rfl⟩ := resolveArgument_type_eq_ok.mp hs
  exact htype true hwords ht hrereads he

end

end TypeReader

/-- The names in the signature of a type, at whatever level it is read. -/
theorem Readers.level_finds (member : String) (fuel n : Nat) :
    (∀ plus, FindsTypes member ((Readers.level fuel n).type plus)) ∧
      FindsArguments member (Readers.level fuel n).argument := by
  induction n with
  | zero =>
    constructor
    · intro plus input t input' s _ h _
      cases h
    · intro input a input' s _ h _
      cases h
  | succ n ih => exact ⟨TypeReader.step_finds ih.1 ih.2, TypeReader.argument_finds ih.1⟩

end RecordStore
