import RecordStore.Proofs.Derive.SignatureReading

/-!
The text of a signature of a type that a text holds is lexed as tokens that are read as a type with
that signature.
-/
namespace RecordStore

open Lexer Reader

namespace Lexer

variable {t : List Char}

/-- A mark in front of what is no punctuation. -/
theorem spans_mark {c : Char}
    (hc : step (c :: t) = some ([.leaf (.punct c (startsPunct t))], t)) :
    Spans [c] [.punct c (startsPunct t)] t :=
  .token (List.cons_ne_nil _ _) hc

theorem spans_blank : Spans [' '] [] t :=
  .blank (List.cons_ne_nil _ _) rfl

/-- A mark and the blank after it. -/
theorem spans_spaced {c : Char}
    (hc : ∀ rest, step (c :: rest) = some ([.leaf (.punct c (startsPunct rest))], rest)) :
    Spans [c, ' '] [.punct c false] t :=
  have hmark : Spans [c] [.punct c false] ([' '] ++ t) := spans_mark (hc _)
  hmark.append spans_blank

theorem spans_comma : Spans ", ".toList [.comma] t := spans_spaced fun _ => rfl

theorem spans_semicolon : Spans "; ".toList [.punct ';' false] t := spans_spaced fun _ => rfl

/-- An opening parenthesis is no lost literal if no comment is in it. -/
theorem step_paren {c : Char} {rest : List Char} (hc : c ≠ '/') :
    step ('(' :: c :: rest) = some ([.opening .paren], c :: rest) := by
  refine step_bracket rfl (fun hlost => hc ?_) rfl
  exact (List.cons_prefix_cons.mp (List.cons_prefix_cons.mp hlost).2).1.symm

/-- Two colons in front of what is no punctuation. -/
theorem spans_colons (ht : startsPunct t = false) : Spans "::".toList (Token.operator "::") t := by
  have hfirst : Spans [':'] [.punct ':' true] ([':'] ++ t) := spans_mark rfl
  have hsecond : Spans [':'] [.punct ':' false] t := ht ▸ spans_mark rfl
  exact hfirst.append hsecond

theorem exists_toList_intercalate (separator first : String) (rest : List String) :
    ∃ more, (separator.intercalate (first :: rest)).toList = first.toList ++ more := by
  cases rest with
  | nil => exact ⟨[], by simp⟩
  | cons second rest =>
    refine ⟨separator.toList ++ (separator.intercalate (second :: rest)).toList, ?_⟩
    rw [String.intercalate_cons_cons, String.toList_append, String.toList_append,
      List.append_assoc]

/-- Texts with a separator between them. What follows each of them has to end it. -/
theorem spans_intercalate {α : Type} (text : α → String) (separator : String)
    {R : List Token → α → Prop} {F : List Char → Prop} {mark : List Token} {items : List α}
    (hitem : ∀ a ∈ items, ∀ t, F t → ∃ ts, Spans (text a).toList ts t ∧ R ts a)
    (hseparator : ∀ a ∈ items, ∀ more, Spans separator.toList mark ((text a).toList ++ more))
    (hF : ∀ more, F (separator.toList ++ more)) (ht : F t) :
    ∃ tss, Spans (separator.intercalate (items.map text)).toList (separated mark false tss) t ∧
      List.Forall₂ R tss items := by
  induction items with
  | nil => exact ⟨[], Spans.nil, .nil⟩
  | cons a items ih =>
    obtain ⟨tss, htss, hR⟩ := ih (fun a ha => hitem a (List.mem_cons_of_mem _ ha))
      (fun a ha => hseparator a (List.mem_cons_of_mem _ ha))
    cases items with
    | nil =>
      obtain ⟨ts, hts, ha⟩ := hitem a List.mem_cons_self t ht
      cases hR
      refine ⟨[ts], ?_, .cons ha .nil⟩
      simpa [separated] using hts
    | cons b items =>
      obtain ⟨ts, hts, ha⟩ := hitem a List.mem_cons_self _
        (hF ((separator.intercalate ((b :: items).map text)).toList ++ t))
      have hmark : Spans separator.toList mark
          ((separator.intercalate ((b :: items).map text)).toList ++ t) := by
        obtain ⟨more, hmore⟩ := exists_toList_intercalate separator (text b) (items.map text)
        rw [List.map_cons, hmore, List.append_assoc]
        exact hseparator b (List.mem_cons_of_mem _ List.mem_cons_self) (more ++ t)
      refine ⟨ts :: tss, ?_, .cons ha hR⟩
      cases hR with
      | cons hb hR =>
        rw [List.map_cons, List.map_cons, String.intercalate_cons_cons, String.toList_append,
          String.toList_append, separated]
        exact (hts.append hmark).append htss

end Lexer

namespace Signature

variable {member : String} {t : List Char}

theorem texts_eq_map (items : List Signature) : texts items = items.map text := by
  induction items with
  | nil => rfl
  | cons s items ih => rw [texts, ih, List.map_cons]

theorem argumentTexts_eq_map (signatures : List SignatureArgument) :
    argumentTexts signatures = signatures.map argumentText := by
  induction signatures with
  | nil => rfl
  | cons a signatures ih => rw [argumentTexts, ih, List.map_cons]

theorem ne_of_identStart {c : Char} (hc : identStart c) : c ≠ '/' ∧ c ≠ '\ufeff' := by
  constructor
  · rintro rfl
    exact absurd hc (by decide)
  · rintro rfl
    exact absurd hc (by decide +kernel)

/-- What the text of a signature starts with. -/
theorem exists_head {s : Signature} (hs : s.Spelled) :
    ∃ c rest, s.text.toList = c :: rest ∧ c ≠ '/' ∧ c ≠ '\ufeff' := by
  cases s with
  | path isGlobal names signatures =>
    rw [text, String.toList_append, String.toList_append]
    cases isGlobal with
    | true => exact ⟨':', _, rfl, by decide, by decide⟩
    | false =>
      obtain ⟨name, others, rfl⟩ := List.exists_cons_of_ne_nil hs.1.ne_nil
      obtain ⟨c, rest, hname, hc⟩ := (hs.1.words name List.mem_cons_self).head
      obtain ⟨more, hmore⟩ := exists_toList_intercalate "::" name others
      rw [hmore, hname]
      exact ⟨c, _, rfl, ne_of_identStart hc⟩
  | tuple items =>
    rw [text]
    split
    · rw [String.toList_append, String.toList_append]
      exact ⟨'(', _, rfl, by decide, by decide⟩
    · rw [String.toList_append, String.toList_append]
      exact ⟨'(', _, rfl, by decide, by decide⟩
  | array element length =>
    simp only [text, String.toList_append]
    exact ⟨'[', _, rfl, by decide, by decide⟩
  | slice element =>
    simp only [text, String.toList_append]
    exact ⟨'[', _, rfl, by decide, by decide⟩

def FollowsArgument (t : List Char) : Prop := ∃ c ∈ [',', '>'], ∃ rest, t = c :: rest

theorem FollowsArgument.closes (ht : FollowsArgument t) : Closes t := by
  obtain ⟨c, hc, rest, rfl⟩ := ht
  exact ⟨c, (by decide : [',', '>'] ⊆ closers) hc, rest, rfl⟩

/-- The names of a path. -/
theorem spans_pathStart {isGlobal hasArguments : Bool} {names : List String}
    (hnames : PathNames isGlobal names hasArguments) (ht : t = [] ∨ Closes t) :
    Spans ((if isGlobal then "::" else "") ++ "::".intercalate names).toList
      (pathStart isGlobal names) t := by
  have hstarts {name : String} (hname : name ∈ names) (more : List Char) :
      startsPunct (name.toList ++ more) = false := by
    obtain ⟨c, rest, hhead, hc⟩ := (hnames.words name hname).head
    rw [hhead]
    exact (punct_none_of_identStart hc _).1
  obtain ⟨tss, hspans, htss⟩ := spans_intercalate id "::" (R := fun ts name => ts = [.ident name])
    (fun name hname t ht => ⟨_, (hnames.words name hname).spans ht, rfl⟩)
    (fun name hname more => spans_colons (hstarts hname more))
    (fun more => .inr ⟨':', by decide, _, rfl⟩) ht
  have hnameTokens : tss = names.map fun name => [.ident name] := by
    rw [← List.forall₂_eq_eq_eq]
    exact List.forall₂_map_right_iff.mpr htss
  rw [hnameTokens, List.map_id] at hspans
  cases isGlobal with
  | false =>
    have htext : ((if false then "::" else "") ++ "::".intercalate names).toList =
        ("::".intercalate names).toList := by simp
    rw [htext]
    exact hspans
  | true =>
    obtain ⟨name, others, rfl⟩ := List.exists_cons_of_ne_nil hnames.ne_nil
    obtain ⟨more, hmore⟩ := exists_toList_intercalate "::" name others
    rw [String.toList_append]
    refine Spans.append (spans_colons ?_) hspans
    rw [hmore, List.append_assoc]
    exact hstarts List.mem_cons_self _

/-- Whether the text of a signature stands for tokens that are read as a type with that signature,
wherever it is closed. -/
def TextReads (member : String) (s : Signature) : Prop :=
  ∀ t, t = [] ∨ Closes t → ∃ ts, Spans s.text.toList ts t ∧ TypeReads member s ts

def ArgumentTextReads (member : String) (a : SignatureArgument) : Prop :=
  ∀ t, FollowsArgument t → ∃ ts, Spans (argumentText a).toList ts t ∧ ArgumentReads member a ts

/-- The text of a path reads as its signature. -/
theorem textReads_path {isGlobal : Bool} {names : List String}
    {signatures : List SignatureArgument} (hnames : PathNames isGlobal names (!signatures.isEmpty))
    (h : ∀ a ∈ signatures, ArgumentTextReads member a) :
    TextReads member (.path isGlobal names signatures) := by
  intro t ht
  cases signatures with
  | nil =>
    have htext : (Signature.path isGlobal names []).text =
        (if isGlobal then "::" else "") ++ "::".intercalate names := String.append_empty
    exact ⟨pathStart isGlobal names, htext ▸ spans_pathStart hnames ht, .path hnames⟩
  | cons first rest =>
    obtain ⟨tss, hspans, htss⟩ := spans_intercalate argumentText ", " h
      (fun _ _ _ => spans_comma) (fun _ => ⟨',', by decide, _, rfl⟩)
      (⟨'>', by decide, t, rfl⟩ : FollowsArgument ('>' :: t))
    have htext : (Signature.path isGlobal names (first :: rest)).text.toList =
        ((if isGlobal then "::" else "") ++ "::".intercalate names).toList ++
          (['<'] ++ ((", ".intercalate ((first :: rest).map argumentText)).toList ++ ['>'])) := by
      simp only [text, argumentTexts_eq_map, List.isEmpty_cons, Bool.false_eq_true, if_false,
        String.toList_append, List.append_assoc]
      rfl
    have hclosing : Spans ['>'] [.punct '>' (startsPunct t)] t := spans_mark rfl
    have hlist := Spans.append hspans hclosing
    have hbrackets := (spans_mark (c := '<') rfl).append hlist
    have hall := (spans_pathStart hnames (.inr ⟨'<', by decide, _, rfl⟩)).append hbrackets
    exact ⟨_, htext ▸ hall, .generic hnames htss _ _⟩

/-- The text of an array reads as its signature. -/
theorem textReads_array {element : Signature} {length : List Token}
    (helement : TextReads member element) (hlength : LengthRereads length) :
    TextReads member (.array element (Token.textOf length)) := by
  intro t ht
  obtain ⟨ts, hts, hreads⟩ := helement
    ("; ".toList ++ (Token.textOf length).toList ++ ']' :: t) (.inr ⟨';', by decide, _, rfl⟩)
  refine ⟨_, ?_, hreads.array hlength⟩
  have hclose : Closes (']' :: t) := ⟨']', by decide, t, rfl⟩
  have hspans : Spans (Token.textOf length).toList length (']' :: t) :=
    spans_of_tokens hlength.1 hclose (by simp [lostLiteral]) fun hpunct => nomatch hpunct
  have htext : (Signature.array element (Token.textOf length)).text.toList =
      '[' :: (element.text.toList ++ ("; ".toList ++ (Token.textOf length).toList)) ++ [']'] := by
    simp [text]
  have hinner := hts.append (spans_semicolon.append hspans)
  exact htext ▸ hinner.group rfl rfl

theorem textReads_slice {element : Signature} (helement : TextReads member element) :
    TextReads member (.slice element) := by
  intro t ht
  obtain ⟨ts, hts, hreads⟩ := helement (']' :: t) (.inr ⟨']', by decide, t, rfl⟩)
  refine ⟨[.group .bracket ts], ?_, hreads.slice⟩
  rw [text, String.toList_append, String.toList_append]
  exact hts.group rfl rfl

/-- The comma of a tuple of one item comes before its parenthesis, and is its only one. -/
theorem textReads_tuple {items : List Signature} (hitems : ItemsSpelled items)
    (h : ∀ s ∈ items, TextReads member s) : TextReads member (.tuple items) := by
  intro t ht
  have hclose : Closes (')' :: t) := ⟨')', by decide, t, rfl⟩
  cases items with
  | nil =>
    have hspans : Spans ('(' :: [] ++ [')']) [.group .paren []] t := Spans.nil.group rfl rfl
    exact ⟨_, hspans, .tuple .nil⟩
  | cons first rest =>
    obtain ⟨c, tail, hhead, hslash, -⟩ := exists_head hitems.1
    have hopening (more : List Char) : step ('(' :: (first.text.toList ++ more)) =
        some ([.opening .paren], first.text.toList ++ more) := by
      rw [hhead]
      exact step_paren hslash
    cases rest with
    | nil =>
      obtain ⟨ts, hts, hreads⟩ :=
        h first List.mem_cons_self ([','] ++ ')' :: t) (.inr ⟨',', by decide, _, rfl⟩)
      refine ⟨_, ?_, .tuple (.cons hreads .nil)⟩
      have htext : (Signature.tuple [first]).text.toList =
          '(' :: (first.text.toList ++ [',']) ++ [')'] := by
        simp [text, texts]
      have hinner : Spans (first.text.toList ++ [',']) (tupleTokens [ts]) (')' :: t) :=
        hts.append (spans_mark rfl)
      exact htext ▸ hinner.group (by simpa using hopening _) rfl
    | cons second rest =>
      obtain ⟨tss, hspans, htss⟩ := spans_intercalate text ", " h
        (fun _ _ _ => spans_comma) (fun _ => .inr ⟨',', by decide, _, rfl⟩)
        (.inr hclose)
      refine ⟨_, ?_, .tuple htss⟩
      have htext : (Signature.tuple (first :: second :: rest)).text.toList =
          '(' :: (", ".intercalate ((first :: second :: rest).map text)).toList ++ [')'] := by
        simp [text, texts_eq_map]
      have hinner : Spans (", ".intercalate ((first :: second :: rest).map text)).toList
          (tupleTokens tss) (')' :: t) := by
        cases htss with
        | cons _ hmore =>
          cases hmore
          simpa [tupleTokens, separated] using hspans
      obtain ⟨more, hmore⟩ :=
        exists_toList_intercalate ", " first.text ((second :: rest).map text)
      refine htext ▸ hinner.group ?_ rfl
      rw [List.map_cons, hmore, List.append_assoc]
      exact hopening _

mutual

/-- The text of a signature stands for tokens that are read as a type with that signature. -/
theorem textReads_of_spelled (member : String) :
    (s : Signature) → s.Spelled → TextReads member s
  | .path _ _ signatures, hs => textReads_path hs.1 (textReads_arguments member signatures hs.2)
  | .tuple items, hs => textReads_tuple hs (textReads_items member items hs)
  | .array element _, ⟨helement, _, htext, hlength⟩ =>
    htext ▸ textReads_array (textReads_of_spelled member element helement) hlength
  | .slice element, hs => textReads_slice (textReads_of_spelled member element hs)

theorem textReads_items (member : String) :
    (items : List Signature) → ItemsSpelled items → ∀ s ∈ items, TextReads member s
  | [], _ => List.forall_mem_nil _
  | s :: rest, hitems =>
    List.forall_mem_cons.mpr
      ⟨textReads_of_spelled member s hitems.1, textReads_items member rest hitems.2⟩

theorem textReads_argument (member : String) :
    (a : SignatureArgument) → ArgumentSpelled a → ArgumentTextReads member a
  | .type s, ha, t, ht => by
    obtain ⟨ts, hts, hreads⟩ := textReads_of_spelled member s ha t (.inr ht.closes)
    exact ⟨ts, hts, .type hreads⟩
  | .const text, ha, t, ht => by
    obtain ⟨ts, hliteral, rfl, htokens⟩ := ha
    refine ⟨ts, spans_of_tokens htokens ht.closes ?_ ?_, .const hliteral⟩
    · obtain ⟨c, hc, rest, rfl⟩ := ht
      intro d hd
      obtain rfl : c = d := Option.some.inj hd
      exact (by decide : ∀ c ∈ [',', '>'], c ∉ lostLiteral.toList) c hc
    · intro _ c joint hlast
      cases hliteral <;> cases hlast

theorem textReads_arguments (member : String) :
    (signatures : List SignatureArgument) → ArgumentsSpelled signatures →
      ∀ a ∈ signatures, ArgumentTextReads member a
  | [], _ => List.forall_mem_nil _
  | a :: rest, hall =>
    List.forall_mem_cons.mpr
      ⟨textReads_argument member a hall.1, textReads_arguments member rest hall.2⟩

end

end Signature

end RecordStore
