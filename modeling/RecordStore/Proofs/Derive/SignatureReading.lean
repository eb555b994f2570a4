import RecordStore.Proofs.Derive.Spelling

/-!
Reading a type from the tokens that the text of a signature holds: the type that is read has that
signature.
-/
namespace RecordStore

open Reader Signature

namespace Token

@[simp] theorem sizeOfAll_nil : sizeOfAll [] = 0 := rfl

@[simp] theorem sizeOfAll_cons (t : Token) (ts : List Token) :
    sizeOfAll (t :: ts) = t.size + sizeOfAll ts := rfl

@[simp] theorem sizeOfAll_append (ts us : List Token) :
    sizeOfAll (ts ++ us) = sizeOfAll ts + sizeOfAll us := by
  induction ts with
  | nil => simp
  | cons t ts ih => simp [ih, Nat.add_assoc]

theorem size_pos (t : Token) : 0 < t.size := by
  cases t <;> simp [size]

theorem length_le_sizeOfAll (ts : List Token) : ts.length ≤ sizeOfAll ts := by
  induction ts with
  | nil => exact Nat.le_refl 0
  | cons t ts ih =>
    have := size_pos t
    simp only [List.length_cons, sizeOfAll_cons]
    omega

theorem sizeOfAll_le_separated (separator : List Token) {tss : List (List Token)}
    {ts : List Token} (h : ts ∈ tss) :
    sizeOfAll ts ≤ sizeOfAll (separated separator false tss) := by
  fun_induction separated separator false tss with
  | case1 => cases h
  | case2 us hfalse => cases hfalse
  | case3 us =>
    rw [List.mem_singleton.mp h]
  | case4 us vs rest ih =>
    rw [sizeOfAll_append, sizeOfAll_append]
    obtain rfl | h := List.mem_cons.mp h
    · omega
    · have := ih h
      omega

theorem length_le_sizeOfAll_separated (separator : List Token) {tss : List (List Token)}
    (h : ∀ ts ∈ tss, ts ≠ []) : tss.length ≤ sizeOfAll (separated separator false tss) := by
  fun_induction separated separator false tss with
  | case1 => exact Nat.le_refl 0
  | case2 us hfalse => cases hfalse
  | case3 us =>
    have := length_le_sizeOfAll us
    have := List.length_pos_iff.mpr (h us List.mem_cons_self)
    simp only [List.length_singleton]
    omega
  | case4 us vs rest ih =>
    have := length_le_sizeOfAll us
    have := List.length_pos_iff.mpr (h us List.mem_cons_self)
    have := ih fun ts hts => h ts (List.mem_cons_of_mem _ hts)
    simp only [sizeOfAll_append, List.length_cons] at this ⊢
    omega

end Token

namespace Reader

variable {α β : Type}

inductive EndsType : List Token → Prop where
  | nil : EndsType []
  | punct {c : Char} {joint : Bool} {rest : List Token} (h : c ∈ [',', '>', ';']) :
    EndsType (.punct c joint :: rest)

theorem endsType_comma (ts : List Token) : EndsType (.comma :: ts) := .punct (by decide)

theorem startsWith_of_ne {s : String} {c d : Char} {cs : List Char} {joint : Bool}
    {rest : List Token} (hs : s.toList = c :: cs) (hne : c ≠ d) :
    startsWith s (.punct d joint :: rest) = false := by
  unfold startsWith
  rw [hs]
  cases cs <;> simp [startsWithChars, hne]

theorem EndsType.not_startsWith {s : String} {c : Char} {cs : List Char} {rest : List Token}
    (h : EndsType rest) (hs : s.toList = c :: cs) (hc : c ∉ [',', '>', ';']) :
    startsWith s rest = false := by
  cases h with
  | nil =>
    unfold startsWith
    rw [hs]
    cases cs <;> rfl
  | punct hd => exact startsWith_of_ne hs fun heq => hc (heq ▸ hd)

theorem EndsType.not_opensArguments {rest : List Token} (h : EndsType rest) :
    TypeReader.opensArguments rest = false := by
  rw [TypeReader.opensArguments, h.not_startsWith rfl (by decide), Bool.false_and]

theorem EndsType.not_opensTurbofish {rest : List Token} (h : EndsType rest) :
    TypeReader.opensTurbofish rest = false := by
  rw [TypeReader.opensTurbofish, h.not_startsWith rfl (by decide), Bool.false_and]

/-- What a type with a signature starts with. -/
inductive OpensType : List Token → Prop where
  | word {name : String} {rest : List Token} (h : (name == "true" || name == "false") = false) :
    OpensType (.ident name :: rest)
  | colons {rest : List Token} : OpensType (.punct ':' true :: rest)
  | group {d : Delimiter} {content rest : List Token} (h : d ≠ .brace) :
    OpensType (.group d content :: rest)

theorem OpensType.append {ts : List Token} (h : OpensType ts) (more : List Token) :
    OpensType (ts ++ more) := by
  cases h with
  | word h => exact .word h
  | colons => exact .colons
  | group h => exact .group h

theorem OpensType.ne_nil {ts : List Token} (h : OpensType ts) : ts ≠ [] := by
  cases h <;> exact List.cons_ne_nil _ _

theorem OpensType.not_startsWith {s : String} {c : Char} {cs : List Char} {ts : List Token}
    (h : OpensType ts) (hs : s.toList = c :: cs) (hc : c ≠ ':') : startsWith s ts = false := by
  cases h with
  | colons => exact startsWith_of_ne hs hc
  | word | group =>
    unfold startsWith
    rw [hs]
    cases cs <;> rfl

theorem OpensType.not_isLifetime {ts : List Token} (h : OpensType ts) : isLifetime ts = false := by
  cases h <;> rfl

theorem OpensType.not_isLiteral {ts : List Token} (h : OpensType ts) : isLiteral ts = false := by
  cases h with
  | word h => simp [isLiteral, literalTokens, h]
  | colons | group => rfl

theorem OpensType.not_startsConst {ts : List Token} (h : OpensType ts) :
    TypeReader.startsConst ts = false := by
  rw [TypeReader.startsConst, h.not_isLiteral, Bool.false_or]
  cases h with
  | word | colons => rfl
  | @group d _ _ h => cases d <;> first | rfl | exact absurd rfl h

/-- Whether a reader takes some tokens where a type may end, and something is made of what it
gives. -/
def Takes (make : α → Except ExpansionError β) (x : Reader α) (ts : List Token) (b : β) : Prop :=
  ∀ ⦃rest⦄, EndsType rest →
    ∃ a, x ⟨ts ++ rest, none⟩ = .ok (a, ⟨rest, none⟩) ∧ make a = .ok b

/-- Items with commas between them, up to an end that no item and no comma looks like. -/
theorem separatedUntil_takes {make : α → Except ExpansionError β} {isEnd : List Token → Bool}
    {item : Reader α} {tss : List (List Token)} {bs : List β} {rest : List Token} {n : Nat}
    (hitems : List.Forall₂ (Takes make item) tss bs)
    (hopen : ∀ ts ∈ tss, ∀ more, isEnd (ts ++ more) = false)
    (hcomma : ∀ more, isEnd (.comma :: more) = false) (hrest : EndsType rest)
    (hend : isEnd rest = true) (hn : tss.length < n) :
    ∃ found, separatedUntil isEnd "," item n ⟨separated [.comma] false tss ++ rest, none⟩ =
        .ok (found, ⟨rest, none⟩) ∧
      List.Forall₂ (fun a b => make a = .ok b) found.1 bs := by
  induction hitems generalizing n with
  | nil =>
    obtain _ | n := n
    · cases hn
    · exact ⟨([], false), next_of_true hend, .nil⟩
  | @cons ts b tss bs hts htss ih =>
    obtain _ | n := n
    · cases hn
    have hstart (more : List Token) : isEnd (ts ++ more) = false := hopen ts List.mem_cons_self more
    cases htss with
    | nil =>
      obtain ⟨a, ha, hmake⟩ := hts hrest
      refine ⟨([a], false), ?_, .cons hmake .nil⟩
      unfold separatedUntil
      rw [separated, if_neg Bool.false_ne_true, next_of_false (hstart rest), bind_of_ok ha]
      exact next_of_true hend
    | @cons us b' tss bs hus htss =>
      obtain ⟨a, ha, hmake⟩ := hts (endsType_comma (separated [.comma] false (us :: tss) ++ rest))
      obtain ⟨⟨found, trailing⟩, hfound, hmakes⟩ :=
        ih (fun us hus => hopen us (List.mem_cons_of_mem _ hus)) (Nat.lt_of_succ_lt_succ hn)
      refine ⟨(a :: found, found.isEmpty || trailing), ?_, .cons hmake hmakes⟩
      unfold separatedUntil
      rw [separated, List.append_assoc, List.append_assoc, next_of_false (hstart _),
        List.singleton_append, bind_of_ok ha, next_of_false (hcomma _),
        bind_of_ok (mark_of_startsWith rfl)]
      exact bind_of_ok hfound

end Reader

namespace Signature

variable {member : String}

theorem resolveArguments_of_forall₂ {args : List TypeArgument}
    {signatures : List SignatureArgument}
    (h : List.Forall₂ (fun a s => resolveArgument member a = .ok s) args signatures) :
    resolveArguments member args = .ok signatures := by
  induction h with
  | nil => rfl
  | cons ha _ ih => exact Data.bind_eq_ok.mpr ⟨_, ha, Data.bind_eq_ok.mpr ⟨_, ih, rfl⟩⟩

theorem resolveItems_of_forall₂ {items : List TypeExpr} {signatures : List Signature}
    (h : List.Forall₂ (fun t s => resolve member t = .ok s) items signatures) :
    resolveItems member items = .ok signatures := by
  induction h with
  | nil => rfl
  | cons ht _ ih => exact Data.bind_eq_ok.mpr ⟨_, ht, Data.bind_eq_ok.mpr ⟨_, ih, rfl⟩⟩

def tupleTokens : List (List Token) → List Token
  | [] => []
  | ts :: rest => ts ++ .comma :: separated [.comma] false rest

theorem hasInnerArguments_plain (name : String) (segs : List PathSegment) :
    hasInnerArguments (.plain name :: segs) = hasInnerArguments segs := by
  cases segs <;> rfl

def nameTokens (names : List String) : List Token :=
  separated (Token.operator "::") false (names.map fun name => [.ident name])

theorem nameTokens_cons (name : String) (names : List String) :
    ∃ more, nameTokens (name :: names) = .ident name :: more := by
  cases names <;> exact ⟨_, rfl⟩

def pathStart (isGlobal : Bool) (names : List String) : List Token :=
  (if isGlobal then Token.operator "::" else []) ++ nameTokens names

end Signature

namespace TypeReader

variable {r : Readers} {plus : Bool} {name : String} {tail rest : List Token}

theorem not_reserved_of_kind {words : List String}
    (hkind : name = "Self" ∨ name ∉ reserved) (hwords : "Self" ∉ words)
    (hreserved : words ⊆ reserved) : isOneOf words (.ident name :: tail) = false := by
  refine List.any_eq_false.mpr fun w hw => ?_
  rintro heq
  obtain rfl : name = w := eq_of_beq heq
  obtain rfl | hname := hkind
  · exact hwords hw
  · exact hname (hreserved hw)

/-- A name is read as a segment, with arguments if some follow. -/
theorem segment_of_kind (hkind : name = "Self" ∨ name ∉ reserved) :
    segment r false ⟨.ident name :: tail, none⟩ = namedSegment r name ⟨tail, none⟩ := by
  unfold segment
  rw [next_of_false (not_reserved_of_kind hkind (by decide) (by decide))]
  by_cases hself : name = "Self"
  · exact next_of_true (beq_iff_eq.mpr hself)
  · have hword : isWord "Self" (.ident name :: tail) = false := beq_eq_false_iff_ne.mpr hself
    have hident : ident ⟨.ident name :: tail, none⟩ = .ok (name, ⟨tail, none⟩) :=
      if_neg (by simpa using hkind.resolve_left hself)
    exact (next_of_false hword).trans (bind_of_ok hident)

theorem segment_of_plain (hkind : name ∈ pathWords ∨ name = "Self" ∨ name ∉ reserved)
    (harguments : opensArguments tail = false) (hturbofish : opensTurbofish tail = false) :
    segment r false ⟨.ident name :: tail, none⟩ = .ok (.plain name, ⟨tail, none⟩) := by
  obtain hword | hkind := hkind
  · have hword : isOneOf ["super", "self", "crate", "try"] (.ident name :: tail) = true := by
      simpa [isOneOf, isWord, pathWords] using hword
    exact next_of_true hword
  · rw [segment_of_kind hkind]
    exact next_of_false (by simp [harguments, hturbofish])

theorem segment_of_generic {args : List TypeArgument} {trailing : Bool}
    (hkind : name = "Self" ∨ name ∉ reserved) (hopens : opensArguments tail = true)
    (hcolons : startsWith "::" tail = false)
    (hargs : arguments r ⟨tail, none⟩ = .ok ((args, trailing), ⟨rest, none⟩)) :
    segment r false ⟨.ident name :: tail, none⟩ =
      .ok (.generic name false args trailing, ⟨rest, none⟩) := by
  rw [segment_of_kind hkind, namedSegment, next_of_true (by simp [hopens]),
    bind_of_ok (mark?_of_not_startsWith hcolons)]
  exact bind_of_ok hargs

/-- The segments of a path whose last name is read together with what follows it. -/
theorem segments_of_names {names : List String} {seg : PathSegment} {n : Nat}
    (hkinds : ∀ name ∈ names, name ∈ pathWords ∨ name = "Self" ∨ name ∉ reserved)
    (hlast : names.getLast? = some (segmentName seg))
    (hseg : segment r false ⟨.ident (segmentName seg) :: tail, none⟩ = .ok (seg, ⟨rest, none⟩))
    (hrest : EndsType rest) (hn : names.length ≤ n) :
    ∃ segs, segments r false n ⟨nameTokens names ++ tail, none⟩ = .ok (segs, ⟨rest, none⟩) ∧
      segs.map segmentName = names ∧ hasInnerArguments segs = false ∧
        ∀ member, resolveLast member segs = resolveLast member [seg] := by
  induction names generalizing n with
  | nil => cases hlast
  | cons name names ih =>
    obtain _ | n := n
    · cases hn
    cases names with
    | nil =>
      obtain rfl : name = segmentName seg := Option.some.inj hlast
      refine ⟨[seg], ?_, rfl, rfl, fun _ => rfl⟩
      have hend : (startsWith "::" rest && !opensCall rest) = false := by
        rw [hrest.not_startsWith rfl (by decide), Bool.false_and]
      exact (bind_of_ok hseg).trans (next_of_false hend)
    | cons second others =>
      obtain ⟨segs, hsegs, hnames, hinner, hresolved⟩ :=
        ih (fun name hname => hkinds name (List.mem_cons_of_mem _ hname)) hlast
          (Nat.le_of_succ_le_succ hn)
      refine ⟨.plain name :: segs, ?_, congrArg (name :: ·) hnames, ?_, ?_⟩
      · obtain ⟨more, hmore⟩ := nameTokens_cons second others
        have htokens : nameTokens (name :: second :: others) ++ tail =
            .ident name :: .punct ':' true :: .punct ':' false ::
              (nameTokens (second :: others) ++ tail) := rfl
        rw [htokens]
        have hseg : segment r false ⟨.ident name :: .punct ':' true :: .punct ':' false ::
            (nameTokens (second :: others) ++ tail), none⟩ = .ok (.plain name, _) :=
          segment_of_plain (hkinds name List.mem_cons_self) rfl (by rw [hmore]; rfl)
        have hnext : (startsWith "::" (.punct ':' true :: .punct ':' false ::
            (nameTokens (second :: others) ++ tail)) && !opensCall (.punct ':' true ::
              .punct ':' false :: (nameTokens (second :: others) ++ tail))) = true := by
          rw [hmore]
          rfl
        exact (bind_of_ok hseg).trans <| (next_of_true hnext).trans <|
          (skip_bind _ _ _).trans (bind_of_ok hsegs)
      · rw [hasInnerArguments_plain, hinner]
      · intro member
        rw [← hresolved]
        cases segs with
        | nil => cases hnames
        | cons => rfl

/-- What step reads where a path comes next. -/
theorem step_of_name {ts : List Token} (hbinder : isWord "for" ts = false)
    (hgroup : isGroup .paren ts = false) (hfunction : isOneOf ["fn", "unsafe", "extern"] ts = false)
    (hbuiltin : startsBuiltin ts = false)
    (hname : ((isIdent ts || isOneOf ["super", "self", "Self", "crate"] ts) ||
      startsWithAny ["::", "<"] ts) = true) :
    step r plus ⟨ts, none⟩ = pathType r plus [] ⟨ts, none⟩ :=
  have hnone : binder? r ⟨ts, none⟩ = .ok ([], ⟨ts, none⟩) := next_of_false hbinder
  (bind_of_ok rfl).trans <| (bind_of_ok hnone).trans <| (next_of_false rfl).trans <|
    (next_of_false hgroup).trans <| (next_of_false hfunction).trans <|
      (next_of_false hbuiltin).trans (next_of_true hname)

theorem step_of_paren {content : List Token} :
    step r plus ⟨.group .paren content :: rest, none⟩ =
      parenthesized r plus ⟨.group .paren content :: rest, none⟩ :=
  (bind_of_ok rfl).trans <| (bind_of_ok (next_of_false rfl)).trans <| (next_of_false rfl).trans <|
    next_of_true rfl

theorem step_of_bracket {content : List Token} :
    step r plus ⟨.group .bracket content :: rest, none⟩ =
      bracketed r ⟨.group .bracket content :: rest, none⟩ :=
  (bind_of_ok rfl).trans <| (bind_of_ok (next_of_false rfl)).trans <| (next_of_false rfl).trans <|
    (next_of_false rfl).trans <| (next_of_false rfl).trans <| (next_of_false rfl).trans <|
      (next_of_false rfl).trans <| (next_of_false rfl).trans <| next_of_true rfl

/-- A path before the end of a type is read as that type. -/
theorem pathType_of_path {ts : List Token} {isGlobal : Bool} {segs : List PathSegment}
    (hqualified : startsWith "<" ts = false)
    (hpath : path r false ⟨ts, none⟩ = .ok ((isGlobal, segs), ⟨rest, none⟩))
    (hrest : EndsType rest) :
    pathType r plus [] ⟨ts, none⟩ = .ok (.path isGlobal segs, ⟨rest, none⟩) := by
  have hbang : (startsBang rest && segs.all isPlain) = false := by
    rw [startsBang, hrest.not_startsWith rfl (by decide), Bool.false_and, Bool.false_and]
  have hplus : (plus && startsWith "+" rest) = false := by
    rw [hrest.not_startsWith rfl (by decide), Bool.and_false]
  exact (next_of_false hqualified).trans <| (bind_of_ok hpath).trans <|
    (next_of_false hbang).trans (next_of_false hplus)

/-- The first name of a path starts a path and nothing else. -/
theorem firstName_cases (hkind : name ∈ pathWords ∨ name = "Self" ∨ name ∉ reserved)
    (htry : name ≠ "try") (rest : List Token) :
    (∀ w ∈ ["for", "fn", "unsafe", "extern"], isWord w (.ident name :: rest) = false) ∧
      (isIdent (.ident name :: rest) ||
        isOneOf ["super", "self", "Self", "crate"] (.ident name :: rest)) = true := by
  obtain hword | rfl | hname := hkind
  · simp only [pathWords, List.mem_cons, List.not_mem_nil, or_false] at hword
    obtain rfl | rfl | rfl | rfl := hword
    · exact ⟨by simp [isWord], rfl⟩
    · exact ⟨by simp [isWord], rfl⟩
    · exact ⟨by simp [isWord], rfl⟩
    · exact absurd rfl htry
  · exact ⟨by simp [isWord], rfl⟩
  · refine ⟨fun w hw => beq_eq_false_iff_ne.mpr ?_, by simp [isIdent, hname]⟩
    rintro rfl
    exact hname ((by decide : ["for", "fn", "unsafe", "extern"] ⊆ reserved) hw)

/-- A path is read as a type if its last name is read with what follows it. -/
theorem step_of_path {isGlobal hasArguments : Bool} {names : List String} {seg : PathSegment}
    (hnames : PathNames isGlobal names hasArguments)
    (hlast : names.getLast? = some (segmentName seg))
    (hseg : segment r false ⟨.ident (segmentName seg) :: tail, none⟩ = .ok (seg, ⟨rest, none⟩))
    (htail : startsWith "#" tail = false) (hrest : EndsType rest) (hfuel : names.length ≤ r.fuel) :
    ∃ t, step r plus ⟨pathStart isGlobal names ++ tail, none⟩ = .ok (t, ⟨rest, none⟩) ∧
      ∀ {member signatures}, resolveLast member [seg] = .ok signatures →
        resolve member t = .ok (.path isGlobal names signatures) := by
  obtain ⟨segs, hsegs, hmap, hinner, hresolved⟩ :=
    segments_of_names hnames.kinds hlast hseg hrest hfuel
  refine ⟨.path isGlobal segs, ?_, fun hsignatures => ?_⟩
  rotate_left
  · rw [resolve, if_neg (by simp [hinner]), hresolved, hsignatures, hmap]
    rfl
  cases isGlobal with
  | true =>
    have hpath : path r false ⟨pathStart true names ++ tail, none⟩ =
        .ok ((true, segs), ⟨rest, none⟩) :=
      (bind_of_ok ((next_of_true rfl).trans (mark_of_startsWith rfl))).trans (bind_of_ok hsegs)
    exact (step_of_name rfl rfl rfl rfl rfl).trans (pathType_of_path rfl hpath hrest)
  | false =>
    obtain ⟨name, others, rfl⟩ := List.exists_cons_of_ne_nil hnames.ne_nil
    obtain ⟨more, hmore⟩ := nameTokens_cons name others
    have hstart : pathStart false (name :: others) ++ tail = .ident name :: (more ++ tail) :=
      congrArg (· ++ tail) hmore
    have hpath : path r false ⟨.ident name :: (more ++ tail), none⟩ =
        .ok ((false, segs), ⟨rest, none⟩) := by
      rw [hmore, List.cons_append] at hsegs
      exact (bind_of_ok (next_of_false rfl)).trans (bind_of_ok hsegs)
    obtain ⟨hother, hname⟩ := firstName_cases (hnames.kinds name List.mem_cons_self)
      (hnames.first rfl name rfl) (more ++ tail)
    have hbuiltin : startsBuiltin (.ident name :: (more ++ tail)) = false := by
      refine Bool.and_eq_false_imp.mpr fun _ => ?_
      cases others with
      | nil =>
        cases hmore
        exact htail
      | cons =>
        cases hmore
        rfl
    rw [hstart]
    exact (step_of_name (hother "for" (by decide)) rfl
      (List.any_eq_false.mpr fun w hw => by simp [hother w (List.mem_cons_of_mem _ hw)]) hbuiltin
        (by rw [hname, Bool.true_or])).trans (pathType_of_path rfl hpath hrest)

end TypeReader

/-- Whether some tokens are read as a type with a signature, wherever a type may end after them. -/
structure TypeReads (member : String) (s : Signature) (ts : List Token) : Prop where
  opens : OpensType ts
  takes : ∀ {fuel n}, 4 * Token.sizeOfAll ts + 8 ≤ fuel → 4 * Token.sizeOfAll ts + 8 ≤ n →
    Takes (resolve member) ((Readers.level fuel n).type true) ts s

/-- Whether some tokens are read as an argument with a signature. -/
structure ArgumentReads (member : String) (a : SignatureArgument) (ts : List Token) : Prop where
  ne_nil : ts ≠ []
  not_closed : ∀ more, startsWith ">" (ts ++ more) = false
  not_equals : ∀ more, startsWith "=" (ts ++ more) = false
  takes : ∀ {fuel n}, 4 * Token.sizeOfAll ts + 8 ≤ fuel → 4 * Token.sizeOfAll ts + 9 ≤ n →
    Takes (resolveArgument member) (Readers.level fuel n).argument ts a

section

variable {member : String} {s : Signature} {ts : List Token}

theorem ArgumentReads.type (h : TypeReads member s ts) : ArgumentReads member (.type s) ts where
  ne_nil := h.opens.ne_nil
  not_closed more := (h.opens.append more).not_startsWith rfl (by decide)
  not_equals more := (h.opens.append more).not_startsWith rfl (by decide)
  takes := by
    intro fuel n hfuel hn rest hrest
    obtain _ | n := n
    · omega
    obtain ⟨t, ht, hs⟩ := h.takes hfuel (Nat.le_of_succ_le_succ hn) hrest
    refine ⟨.type t, ?_, resolveArgument_type_eq_ok.mpr ⟨s, hs, rfl⟩⟩
    have hopens := h.opens.append rest
    have hlifetime : (isLifetime (ts ++ rest) && !startsWith "+" (tail (ts ++ rest))) = false := by
      rw [hopens.not_isLifetime, Bool.false_and]
    refine (next_of_false hlifetime).trans <| (next_of_false hopens.not_isLiteral).trans <|
      (next_of_false hopens.not_startsConst).trans <| (bind_of_ok ht).trans ?_
    split
    · exact (next_of_false (hrest.not_startsWith rfl (by decide))).trans <|
        next_of_false (hrest.not_startsWith rfl (by decide))
    · rfl

theorem ArgumentReads.const (h : IsLiteral ts) :
    ArgumentReads member (.const (Token.textOf ts)) ts where
  ne_nil := by cases h <;> exact List.cons_ne_nil _ _
  not_closed more := by cases h <;> rfl
  not_equals more := by cases h <;> rfl
  takes := by
    intro fuel n hfuel hn rest hrest
    obtain _ | n := n
    · omega
    refine ⟨.literal ts, ?_, rfl⟩
    have htokens : literalTokens (ts ++ rest) = ts := by
      cases h with
      | token s => rfl
      | truth h => exact if_pos h
      | negative h => exact if_pos h
    have hlifetime : (isLifetime (ts ++ rest) && !startsWith "+" (tail (ts ++ rest))) = false := by
      cases h <;> rfl
    have hliteral : isLiteral (ts ++ rest) = true := by
      rw [isLiteral, htokens]
      cases h <;> rfl
    have hread : literal ⟨ts ++ rest, none⟩ = .ok (ts, ⟨rest, none⟩) := by
      refine (bind_of_ok rfl).trans ?_
      rw [htokens]
      cases h <;> rfl
    exact (next_of_false hlifetime).trans <| (next_of_true hliteral).trans (bind_of_ok hread)

variable {names : List String} {isGlobal : Bool}

theorem length_le_sizeOfAll_nameTokens (names : List String) :
    names.length ≤ Token.sizeOfAll (nameTokens names) := by
  have h : (names.map fun name => [Token.ident name]).length ≤ _ :=
    Token.length_le_sizeOfAll_separated (Token.operator "::") (by simp)
  rwa [List.length_map] at h

theorem opensType_pathStart {hasArguments : Bool}
    (hnames : PathNames isGlobal names hasArguments) (more : List Token) :
    OpensType (pathStart isGlobal names ++ more) := by
  cases isGlobal with
  | true => exact .colons
  | false =>
    obtain ⟨name, others, rfl⟩ := List.exists_cons_of_ne_nil hnames.ne_nil
    obtain ⟨rest, hrest⟩ := nameTokens_cons name others
    have hstart : pathStart false (name :: others) ++ more = .ident name :: (rest ++ more) :=
      congrArg (· ++ more) hrest
    rw [hstart]
    refine .word ?_
    obtain hword | rfl | hname := hnames.kinds name List.mem_cons_self
    · simp only [pathWords, List.mem_cons, List.not_mem_nil, or_false] at hword
      obtain rfl | rfl | rfl | rfl := hword <;> rfl
    · rfl
    · refine Bool.eq_false_iff.mpr fun heq => hname ?_
      simp only [Bool.or_eq_true, beq_iff_eq] at heq
      obtain rfl | rfl := heq <;> decide

/-- A path of names reads as the signature that it is written for. -/
theorem TypeReads.path (hnames : PathNames isGlobal names false) :
    TypeReads member (.path isGlobal names []) (pathStart isGlobal names) where
  opens := List.append_nil (pathStart isGlobal names) ▸ opensType_pathStart hnames []
  takes := by
    intro fuel n hfuel hn rest hrest
    obtain _ | n := n
    · omega
    have hlength : names.length ≤ (Readers.level fuel n).fuel := by
      have := length_le_sizeOfAll_nameTokens names
      rw [pathStart, Token.sizeOfAll_append] at hfuel
      rw [Readers.level_fuel]
      omega
    obtain ⟨last, hlast⟩ : ∃ last, names.getLast? = some (segmentName (.plain last)) :=
      Option.isSome_iff_exists.mp (List.getLast?_isSome.mpr hnames.ne_nil)
    have hseg := TypeReader.segment_of_plain (r := Readers.level fuel n)
      (hnames.kinds last (List.mem_of_getLast? hlast)) hrest.not_opensArguments
      hrest.not_opensTurbofish
    obtain ⟨t, ht, hresolve⟩ := TypeReader.step_of_path hnames hlast hseg
      (hrest.not_startsWith rfl (by decide)) hrest hlength
    exact ⟨t, ht, hresolve rfl⟩

/-- Arguments in angle brackets. -/
theorem arguments_of_reads {tss : List (List Token)} {signatures : List SignatureArgument}
    {fuel n : Nat} (h : List.Forall₂ (fun ts a => ArgumentReads member a ts) tss signatures)
    (hfuel : 4 * Token.sizeOfAll (separated [.comma] false tss) + 9 ≤ fuel)
    (hn : 4 * Token.sizeOfAll (separated [.comma] false tss) + 9 ≤ n) (opening closing : Bool)
    (rest : List Token) :
    ∃ found trailing, TypeReader.arguments (Readers.level fuel n)
        ⟨.punct '<' opening :: (separated [.comma] false tss ++ .punct '>' closing :: rest), none⟩ =
          .ok ((found, trailing), ⟨rest, none⟩) ∧
      resolveArguments member found = .ok signatures := by
  have hfuel' : (Readers.level fuel n).fuel = fuel := Readers.level_fuel fuel n
  have hopen : ∀ ts ∈ tss, ts ≠ [] ∧ ∀ more, startsWith ">" (ts ++ more) = false :=
    ((List.forall₂_and_left _ _).mp
      (h.imp fun ts a ha => ⟨⟨ha.ne_nil, ha.not_closed⟩, ha⟩)).1
  have hitems : List.Forall₂ (Takes (resolveArgument member) (Readers.level fuel n).argument) tss
      signatures := by
    refine ((List.forall₂_and_left _ _).mpr ⟨fun ts hts => hts, h⟩).imp fun ts a ⟨hts, ha⟩ => ?_
    have := Token.sizeOfAll_le_separated [.comma] hts
    exact ha.takes (by omega) (by omega)
  have hlength := Token.length_le_sizeOfAll_separated [.comma] fun ts hts => (hopen ts hts).1
  obtain ⟨⟨found, trailing⟩, hfound, hresolved⟩ :=
    separatedUntil_takes hitems (fun ts hts => (hopen ts hts).2)
      (fun _ => rfl) (.punct (by decide) : EndsType (.punct '>' closing :: rest)) rfl
      (by omega : tss.length < fuel)
  refine ⟨found, trailing, ?_, resolveArguments_of_forall₂ hresolved⟩
  unfold TypeReader.arguments
  rw [hfuel']
  exact (bind_of_ok (mark_of_startsWith rfl)).trans <| (bind_of_ok hfound).trans <|
    bind_of_ok (mark_of_startsWith rfl)

/-- An angle bracket before arguments is no comparison. -/
theorem opensArguments_of_reads {tss : List (List Token)} {signatures : List SignatureArgument}
    (h : List.Forall₂ (fun ts a => ArgumentReads member a ts) tss signatures)
    (opening closing : Bool) (rest : List Token) :
    TypeReader.opensArguments (.punct '<' opening ::
      (separated [.comma] false tss ++ .punct '>' closing :: rest)) = true := by
  have hequals : startsWith "=" (separated [.comma] false tss ++ .punct '>' closing :: rest) =
      false := by
    cases h with
    | nil => rfl
    | cons hts htss =>
      cases htss with
      | nil => exact hts.not_equals _
      | cons =>
        rw [separated, List.append_assoc, List.append_assoc]
        exact hts.not_equals _
  have hcompares : startsWith "<=" (.punct '<' opening ::
      (separated [.comma] false tss ++ .punct '>' closing :: rest)) = false := by
    change ('<' == '<' && opening && startsWith "=" _) = false
    rw [hequals, Bool.and_false]
  rw [TypeReader.opensArguments, hcompares]
  rfl

/-- A path with arguments reads as its signature where the arguments read as theirs. -/
theorem TypeReads.generic {tss : List (List Token)} {signatures : List SignatureArgument}
    (hnames : PathNames isGlobal names true)
    (h : List.Forall₂ (fun ts a => ArgumentReads member a ts) tss signatures)
    (opening closing : Bool) :
    TypeReads member (.path isGlobal names signatures) (pathStart isGlobal names ++
      .punct '<' opening :: (separated [.comma] false tss ++ [.punct '>' closing])) where
  opens := opensType_pathStart hnames _
  takes := by
    intro fuel n hfuel hn rest hrest
    obtain _ | n := n
    · omega
    simp only [Token.sizeOfAll_append, Token.sizeOfAll_cons, Token.size, Token.sizeOfAll_nil,
      pathStart] at hfuel hn
    have hlength : names.length ≤ (Readers.level fuel n).fuel := by
      have := length_le_sizeOfAll_nameTokens names
      rw [Readers.level_fuel]
      omega
    obtain ⟨found, trailing, hfound, hresolved⟩ :=
      arguments_of_reads h (by omega : _ ≤ fuel) (by omega : _ ≤ n) opening closing rest
    obtain ⟨last, hlast⟩ :
        ∃ last, names.getLast? = some (segmentName (.generic last false found trailing)) :=
      Option.isSome_iff_exists.mp (List.getLast?_isSome.mpr hnames.ne_nil)
    have hseg := TypeReader.segment_of_generic (hnames.last rfl last hlast)
      (opensArguments_of_reads h opening closing rest)
      (startsWith_of_ne rfl (by decide)) hfound
    obtain ⟨t, ht, hresolve⟩ := TypeReader.step_of_path hnames hlast hseg
      (startsWith_of_ne rfl (by decide)) hrest hlength
    refine ⟨t, ?_, hresolve hresolved⟩
    rw [List.append_assoc, List.cons_append, List.append_assoc]
    exact ht

theorem TypeReads.slice (h : TypeReads member s ts) :
    TypeReads member (.slice s) [.group .bracket ts] where
  opens := .group (by decide)
  takes := by
    intro fuel n hfuel hn rest hrest
    obtain _ | n := n
    · omega
    simp only [Token.sizeOfAll_cons, Token.size, Token.sizeOfAll_nil] at hfuel hn
    obtain ⟨t, ht, hs⟩ := h.takes (by omega : _ ≤ fuel) (by omega : _ ≤ n) .nil
    rw [List.append_nil] at ht
    refine ⟨.slice t, ?_, Data.map_eq_ok.mpr ⟨s, hs, rfl⟩⟩
    refine TypeReader.step_of_bracket.trans (inGroup_of_ok ?_)
    exact (bind_of_ok ht).trans (next_of_false rfl)

/-- An array reads as its signature where the length is read again. -/
theorem TypeReads.array (h : TypeReads member s ts) {length : List Token}
    (hlength : LengthRereads length) :
    TypeReads member (.array s (Token.textOf length))
      [.group .bracket (ts ++ .punct ';' false :: length)] where
  opens := .group (by decide)
  takes := by
    intro fuel n hfuel hn rest hrest
    obtain _ | n := n
    · omega
    simp only [Token.sizeOfAll_append, Token.sizeOfAll_cons, Token.size, Token.sizeOfAll_nil]
      at hfuel hn
    obtain ⟨t, ht, hs⟩ := h.takes (by omega : _ ≤ fuel) (by omega : _ ≤ n)
      (.punct (by decide) : EndsType (.punct ';' false :: length))
    obtain ⟨e, he, htokens⟩ := hlength.2 fuel n (by omega) (by omega)
    refine ⟨.array t e.fragments, ?_, Data.map_eq_ok.mpr ⟨s, hs, by rw [htokens]⟩⟩
    refine TypeReader.step_of_bracket.trans (inGroup_of_ok ?_)
    exact (bind_of_ok ht).trans <| (next_of_true rfl).trans <| (skip_bind _ _ _).trans <|
      bind_of_ok he

/-- Items in parentheses are a tuple, the first of them with a comma after it. -/
theorem TypeReads.tuple {tss : List (List Token)} {items : List Signature}
    (h : List.Forall₂ (fun ts s => TypeReads member s ts) tss items) :
    TypeReads member (.tuple items) [.group .paren (tupleTokens tss)] where
  opens := .group (by decide)
  takes := by
    intro fuel n hfuel hn rest hrest
    obtain _ | n := n
    · omega
    simp only [Token.sizeOfAll_cons, Token.size, Token.sizeOfAll_nil] at hfuel hn
    cases h with
    | nil =>
      refine ⟨.tuple [] false, TypeReader.step_of_paren.trans ?_, rfl⟩
      unfold TypeReader.parenthesized
      exact (bind_of_ok (inGroup_of_ok (next_of_true rfl))).trans rfl
    | @cons ts s tss items hts htss =>
      simp only [tupleTokens, Token.sizeOfAll_append, Token.sizeOfAll_cons] at hfuel hn
      obtain ⟨t, ht, hs⟩ := hts.takes (by omega : _ ≤ fuel) (by omega : _ ≤ n)
        (endsType_comma (separated [.comma] false tss))
      have hopen : ∀ ts ∈ tss, ts ≠ [] :=
        ((List.forall₂_and_left _ _).mp (htss.imp fun ts s h => ⟨h.opens.ne_nil, h⟩)).1
      have hlength := Token.length_le_sizeOfAll_separated [.comma] hopen
      have hitems : List.Forall₂ (Takes (resolve member) ((Readers.level fuel n).type true)) tss
          items := by
        refine ((List.forall₂_and_left _ _).mpr ⟨fun ts hts => hts, htss⟩).imp fun ts s h => ?_
        have := Token.sizeOfAll_le_separated [.comma] h.1
        exact h.2.takes (by omega : _ ≤ fuel) (by omega : _ ≤ n)
      have hstart : ∀ ts ∈ tss, ∀ more, List.isEmpty (ts ++ more) = false := by
        intro ts hts more
        simp [hopen ts hts]
      obtain ⟨⟨found, trailing⟩, hfound, hresolved⟩ :=
        separatedUntil_takes hitems hstart (fun _ => rfl) .nil rfl
          (by rw [Readers.level_fuel]; omega : tss.length < (Readers.level fuel n).fuel)
      rw [List.append_nil] at hfound
      let tuple := TypeExpr.tuple (t :: found) (trailing || found.isEmpty)
      refine ⟨tuple, ?_, Data.map_eq_ok.mpr
        ⟨_, resolveItems_of_forall₂ (.cons hs hresolved), rfl⟩⟩
      refine TypeReader.step_of_paren.trans ?_
      unfold TypeReader.parenthesized
      have hopens := hts.opens.append (.comma :: separated [.comma] false tss)
      have hnonempty : (ts ++ .comma :: separated [.comma] false tss).isEmpty = false := by simp
      refine (bind_of_ok (inGroup_of_ok (a := tuple) ?_)).trans rfl
      exact (next_of_false hnonempty).trans <| (next_of_false hopens.not_isLifetime).trans <|
        (next_of_false (hopens.not_startsWith rfl (by decide))).trans <| (bind_of_ok ht).trans <|
          (next_of_true rfl).trans <| (skip_bind _ _ _).trans <|
            bind_of_ok hfound

end

end RecordStore
